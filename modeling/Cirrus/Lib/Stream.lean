import Cirrus.Lib.Codec

/- Programs at one end of a connection. A connection is two streams of cells, one each way; what is
   sent on a stream arrives whole and in order, but a read takes any part of what has arrived. -/
namespace Stream
variable {B A C : Type}

/-- What one end does: receive a number of cells, send cells, and end with a result or a fault. -/
inductive Prog (B A : Type) where
  | done (a : A)
  | fail (fault : Fault)
  /-- Reads until `n` cells are there. The rest gets the cells, or `none` where the loop that reads
      returns 0, as it does when it is asked for no cells. -/
  | recv (n : Nat) (next : Option (List B) → Prog B A)
  | send (cells : List B) (next : Prog B A)

namespace Prog

def bind : Prog B A → (A → Prog B C) → Prog B C
  | .done a, f => f a
  | .fail fault, _ => .fail fault
  | .recv n next, f => .recv n fun cells => bind (next cells) f
  | .send cells next, f => .send cells (bind next f)

instance : Monad (Prog B) where
  pure := .done
  bind := bind

def readAll (n : Nat) : Prog B (Option (List B)) := .recv n .done

def sendAll (cells : List B) : Prog B Unit := .send cells (.done ())

/-- A computation on the side, which takes and sends nothing. -/
def compute : Except Fault A → Prog B A
  | .ok a => .done a
  | .error fault => .fail fault

@[ext]
structure Progress (B A : Type) where
  /-- Nothing if the program waits for cells. -/
  result : Option (Except Fault A)
  unread : List B
  sent : List B

def run : Prog B A → List B → Progress B A
  | .done a, input => { result := some (.ok a), unread := input, sent := [] }
  | .fail fault, input => { result := some (.error fault), unread := input, sent := [] }
  | .recv n next, input =>
    if n = 0 then run (next none) input
    else if n ≤ input.length then run (next (some (input.take n))) (input.drop n)
    else { result := none, unread := input, sent := [] }
  | .send cells next, input =>
    let after := run next input
    { after with sent := cells ++ after.sent }

theorem run_read {f : Option (List B) → Prog B A} {n : Nat} {c : List B} (size : c.length = n)
    (positive : 0 < n) (rest : List B) :
    run (Prog.readAll n >>= f) (c ++ rest) = run (f (some c)) rest := by
  change run (.recv n fun cells => f cells) (c ++ rest) = _
  rw [run, if_neg (by omega), if_pos (by simp; omega), List.take_left' size, List.drop_left' size]

theorem run_read_all {f : Option (List B) → Prog B A} {cells : List B} (positive : 0 < cells.length) :
    run (Prog.readAll cells.length >>= f) cells = run (f (some cells)) [] := by
  have whole := run_read (f := f) (c := cells) rfl positive []
  rwa [List.append_nil] at whole

theorem run_read_none {f : Option (List B) → Prog B A} (input : List B) :
    run (Prog.readAll 0 >>= f) input = run (f none) input := rfl

/-- The program takes exactly the first cells, sends exactly the second, and ends with `a`. -/
def Talks (p : Prog B A) (takes sends : List B) (a : A) : Prop :=
  ∀ rest, run p (takes ++ rest) = { result := some (.ok a), unread := rest, sent := sends }

theorem Talks.done (a : A) : Talks (.done a : Prog B A) [] [] a := fun _ => rfl

theorem Talks.pure (a : A) : Talks (pure a : Prog B A) [] [] a := fun _ => rfl

theorem Talks.send {p : Prog B A} {takes sends : List B} {a : A} (cells : List B)
    (next : Talks p takes sends a) : Talks (.send cells p) takes (cells ++ sends) a := by
  intro rest
  simp [run, next rest]

theorem Talks.recv {next : Option (List B) → Prog B A} {cells takes sends : List B} {a : A}
    (some_cells : cells ≠ []) (after : Talks (next (some cells)) takes sends a) :
    Talks (.recv cells.length next) (cells ++ takes) sends a := by
  intro rest
  have positive : cells.length ≠ 0 := by simpa using some_cells
  simp [run, positive, after rest]

theorem Talks.recv_none {next : Option (List B) → Prog B A} {takes sends : List B} {a : A}
    (after : Talks (next none) takes sends a) : Talks (.recv 0 next) takes sends a := by
  intro rest
  simp [run, after rest]

theorem Talks.of_send {p : Prog B A} {cells takes sends : List B} {a : A}
    (talked : Talks (.send cells p) takes sends a) :
    ∃ more, sends = cells ++ more ∧ Talks p takes more a := by
  have sent : ∀ rest, cells ++ (run p (takes ++ rest)).sent = sends :=
    fun rest => congrArg Progress.sent (talked rest)
  refine ⟨(run p (takes ++ [])).sent, (sent []).symm, ?_⟩
  intro rest
  have result := congrArg Progress.result (talked rest)
  have unread := congrArg Progress.unread (talked rest)
  exact Progress.ext result unread (List.append_cancel_left ((sent rest).trans (sent []).symm))

theorem Talks.of_recv {n : Nat} {next : Option (List B) → Prog B A} {takes sends : List B} {a : A}
    (talked : Talks (.recv n next) takes sends a) (positive : 0 < n) :
    n ≤ takes.length ∧ Talks (next (some (takes.take n))) (takes.drop n) sends a := by
  have fits : n ≤ takes.length := by
    apply Decidable.byContradiction
    intro short
    have stop := talked []
    rw [run, if_neg (by omega), if_neg (by simpa using short)] at stop
    cases congrArg Progress.result stop
  refine ⟨fits, ?_⟩
  intro rest
  have whole := talked rest
  rwa [run, if_neg (by omega), if_pos (by simp; omega), List.take_append_of_le_length fits,
    List.drop_append_of_le_length fits] at whole

theorem Talks.of_recv_none {next : Option (List B) → Prog B A} {takes sends : List B} {a : A}
    (talked : Talks (.recv 0 next) takes sends a) : Talks (next none) takes sends a := by
  intro rest
  have whole := talked rest
  rwa [run, if_pos rfl] at whole

theorem Talks.of_done {takes sends : List B} {a b : A} (talked : Talks (.done b) takes sends a) :
    takes = [] ∧ sends = [] ∧ a = b := by
  have stop := talked []
  simp only [run, Progress.mk.injEq, Option.some.injEq, Except.ok.injEq, List.append_nil] at stop
  exact ⟨stop.2.1, stop.2.2.symm, stop.1.symm⟩

theorem Talks.not_fail {fault : Fault} {takes sends : List B} {a : A} :
    ¬ Talks (.fail fault) takes sends a := by
  intro talked
  cases congrArg Progress.result (talked [])

theorem Talks.bind {p : Prog B A} {f : A → Prog B C} {takes takes' sends sends' : List B}
    {a : A} {c : C} (first : Talks p takes sends a) (next : Talks (f a) takes' sends' c) :
    Talks (p >>= f) (takes ++ takes') (sends ++ sends') c := by
  change Talks (p.bind f) _ _ _
  induction p generalizing takes sends with
  | done b =>
    obtain ⟨rfl, rfl, rfl⟩ := first.of_done
    exact next
  | fail fault => exact (Talks.not_fail first).elim
  | send cells p ih =>
    obtain ⟨more, rfl, after⟩ := first.of_send
    rw [List.append_assoc]
    exact .send cells (ih after)
  | recv n p ih =>
    rcases Nat.eq_zero_or_pos n with rfl | positive
    · exact .recv_none (ih none first.of_recv_none)
    · obtain ⟨fits, after⟩ := first.of_recv positive
      have cells_length : (takes.take n).length = n := List.length_take_of_le fits
      have some_cells : takes.take n ≠ [] := by
        rw [← List.length_pos_iff, cells_length]
        exact positive
      have talked := @Talks.recv _ _ (fun cells => (p cells).bind f) _ _ _ _ some_cells
        (ih (some (takes.take n)) after)
      rwa [cells_length, ← List.append_assoc, List.take_append_drop] at talked

theorem Talks.readAll {cells : List B} (some_cells : cells ≠ []) :
    Talks (readAll cells.length) cells [] (some cells) := by
  have talked := Talks.recv some_cells (Talks.done (B := B) (some cells))
  rwa [List.append_nil] at talked

theorem Talks.sendAll (cells : List B) : Talks (sendAll cells) [] cells () := by
  have talked := Talks.send cells (Talks.done (B := B) ())
  rwa [List.append_nil] at talked

theorem Talks.compute {result : Except Fault A} {a : A} (ok : result = .ok a) :
    Talks (compute result : Prog B A) [] [] a := by
  rw [ok]
  exact .done a

section Sequence
variable {f : Option (List B) → Prog B A} {takes sends : List B} {a : A}

theorem Talks.read {n : Nat} {cells : List B} (size : cells.length = n) (positive : 0 < n)
    (next : Talks (f (some cells)) takes sends a) :
    Talks (Prog.readAll n >>= f) (cells ++ takes) sends a := by
  subst size
  exact (Talks.readAll (List.length_pos_iff.mp positive)).bind next

theorem Talks.read_none (next : Talks (f none) takes sends a) :
    Talks (Prog.readAll 0 >>= f) takes sends a :=
  (Talks.recv_none (Talks.done none)).bind next

theorem Talks.say {f : Unit → Prog B A} (cells : List B) (next : Talks (f ()) takes sends a) :
    Talks (Prog.sendAll cells >>= f) takes (cells ++ sends) a :=
  (Talks.sendAll cells).bind next

theorem Talks.say_last {f : Unit → Prog B A} (cells : List B) (next : Talks (f ()) takes [] a) :
    Talks (Prog.sendAll cells >>= f) takes cells a := by
  have said := Talks.say cells next
  rwa [List.append_nil] at said

theorem Talks.read_last {n : Nat} {cells : List B} (size : cells.length = n) (positive : 0 < n)
    (next : Talks (f (some cells)) [] sends a) : Talks (Prog.readAll n >>= f) cells sends a := by
  have read := Talks.read size positive next
  rwa [List.append_nil] at read

theorem Talks.work {result : Except Fault C} {c : C} {f : C → Prog B A} (ok : result = .ok c)
    (next : Talks (f c) takes sends a) : Talks (Prog.compute result >>= f) takes sends a :=
  (Talks.compute ok).bind next

end Sequence

/-- Two programs over one connection, each of which takes exactly what the other sends. -/
def Meets (p : Prog B A) (q : Prog B C) (a : A) (c : C) : Prop :=
  ∃ message reply, Talks p reply message a ∧ Talks q message reply c

def Mute : Prog B A → Prop
  | .done _ => True
  | .fail _ => True
  | .recv _ next => ∀ cells, Mute (next cells)
  | .send _ _ => False

/-- A program that sends all it has to send before it takes anything. -/
def SpeaksFirst : Prog B A → Prop
  | .send _ next => SpeaksFirst next
  | p => Mute p

theorem speaksFirst_say {f : Unit → Prog B A} {cells : List B} :
    SpeaksFirst (Prog.sendAll cells >>= f) ↔ SpeaksFirst (f ()) := Iff.rfl

theorem speaksFirst_read {f : Option (List B) → Prog B A} {n : Nat} :
    SpeaksFirst (Prog.readAll n >>= f) ↔ ∀ cells, Mute (f cells) := Iff.rfl

theorem mute_compute {result : Except Fault C} {f : C → Prog B A} (each : ∀ c, Mute (f c)) :
    Mute (Prog.compute result >>= f) := by
  cases result with
  | ok c => exact each c
  | error fault => trivial

theorem mute_sends_nothing {p : Prog B A} (mute : Mute p) (input : List B) :
    (run p input).sent = [] := by
  induction p generalizing input with
  | done a => rfl
  | fail fault => rfl
  | recv n next ih =>
    rw [run]
    split
    · exact ih none (mute none) input
    · split
      · exact ih _ (mute _) _
      · rfl
  | send cells next ih => exact mute.elim

theorem speaksFirst_sent {p : Prog B A} (first : SpeaksFirst p) (input : List B) :
    (run p input).sent = (run p []).sent := by
  induction p with
  | send cells next ih =>
    rw [run, run]
    exact congrArg (cells ++ ·) (ih first)
  | done a => rfl
  | fail fault => rfl
  | recv n next =>
    rw [mute_sends_nothing first, mute_sends_nothing first]

theorem speaksFirst_of_mute {p : Prog B A} (mute : Mute p) : SpeaksFirst p := by
  cases p with
  | send cells next => exact mute.elim
  | done a => exact mute
  | fail fault => exact mute
  | recv n next => exact mute

theorem speaksFirst_compute {result : Except Fault C} {f : C → Prog B A} (each : ∀ c, SpeaksFirst (f c)) :
    SpeaksFirst (Prog.compute result >>= f) := by
  cases result with
  | ok c => exact each c
  | error fault => trivial

theorem mute_map {p : Prog B A} (f : A → C) (mute : Mute p) : Mute (p >>= fun a => pure (f a)) := by
  change Mute (p.bind _)
  induction p with
  | done a => trivial
  | fail fault => trivial
  | recv n next ih => exact fun cells => ih cells (mute cells)
  | send cells next => exact mute.elim

theorem speaksFirst_map {p : Prog B A} (f : A → C) (first : SpeaksFirst p) :
    SpeaksFirst (p >>= fun a => pure (f a)) := by
  change SpeaksFirst (p.bind _)
  induction p with
  | done a => trivial
  | fail fault => trivial
  | recv n next => exact fun cells => mute_map f (first cells)
  | send cells next ih => exact ih first

theorem Talks.map {p : Prog B A} {takes sends : List B} {a : A} (f : A → C) (talks : Talks p takes sends a) :
    Talks (p >>= fun a => Pure.pure (f a)) takes sends (f a) := by
  have whole := talks.bind (f := fun a => Pure.pure (f a)) (Talks.pure (f a))
  rwa [List.append_nil, List.append_nil] at whole

theorem Talks.waits {p : Prog B A} {takes sends : List B} {a : A} (talks : Talks p takes sends a) (some_cells : takes ≠ []) :
    (run p []).result = none := by
  induction p generalizing sends with
  | done b => exact absurd talks.of_done.1 some_cells
  | fail fault => exact absurd talks Talks.not_fail
  | send cells next ih =>
    obtain ⟨more, _, after⟩ := talks.of_send
    exact ih after
  | recv n next ih =>
    rw [run]
    split
    next none =>
      subst none
      exact ih _ talks.of_recv_none
    next positive =>
      rw [if_neg]
      rw [List.length_nil]
      omega

end Prog

def Prog.wants : Prog B A → Nat
  | .recv n _ => n
  | _ => 0

/-- A program under way: `got` is what the receive it is at has read so far. -/
structure End (B A : Type) where
  prog : Prog B A
  got : List B
  fits : got.length ≤ prog.wants

def End.fresh (prog : Prog B A) : End B A := { prog := prog, got := [], fits := Nat.zero_le _ }

inductive Move : End B A → List B → List B → End B A → Prop
  /-- One call of `read`, which returns some part of what is asked for. -/
  | read {n : Nat} {next : Option (List B) → Prog B A} {got : List B} (chunk : List B)
      (some_cells : chunk ≠ []) (fits : got.length ≤ n) (fits' : (got ++ chunk).length ≤ n) :
      Move ⟨.recv n next, got, fits⟩ chunk [] ⟨.recv n next, got ++ chunk, fits'⟩
  | received {next : Option (List B) → Prog B A} {got : List B}
      (fits : got.length ≤ got.length) :
      Move ⟨.recv got.length next, got, fits⟩ [] []
        (.fresh (next (if got.length = 0 then none else some got)))
  /-- One call of `send`, which accepts some part of what is left. -/
  | write {next : Prog B A} (chunk more : List B) (some_cells : chunk ≠ []) :
      Move (.fresh (.send (chunk ++ more) next)) [] chunk (.fresh (.send more next))
  | written {next : Prog B A} : Move (.fresh (.send [] next)) [] [] (.fresh next)

def Left (e : End B A) (takes sends : List B) (a : A) : Prop :=
  Prog.Talks e.prog (e.got ++ takes) sends a

theorem Left.done {e : End B A} {takes sends : List B} {a b : A} (left : Left e takes sends a)
    (ended : e.prog = .done b) : takes = [] ∧ sends = [] ∧ a = b := by
  rw [Left, ended] at left
  obtain ⟨nothing, sent, same⟩ := left.of_done
  exact ⟨(List.append_eq_nil_iff.mp nothing).2, sent, same⟩

theorem Left.no_fault {e : End B A} {takes sends : List B} {a : A} (left : Left e takes sends a)
    (fault : Fault) : e.prog ≠ .fail fault := by
  intro failed
  rw [Left, failed] at left
  exact Prog.Talks.not_fail left

theorem Left.expects {n : Nat} {next : Option (List B) → Prog B A} {got takes sends : List B}
    {fits : got.length ≤ n} {a : A} (left : Left ⟨.recv n next, got, fits⟩ takes sends a)
    (positive : 0 < n) : n ≤ got.length + takes.length := by
  have expects := (Prog.Talks.of_recv left positive).1
  rwa [List.length_append] at expects

theorem Left.move {e e' : End B A} {takes sends taken pushed later later' : List B} {a : A}
    (left : Left e takes sends a) (moved : Move e taken pushed e')
    (agree : taken ++ later = takes ++ later') :
    ∃ takes' sends', takes = taken ++ takes' ∧ sends = pushed ++ sends' ∧ Left e' takes' sends' a := by
  cases moved with
  | @read n next got _ some_cells fits fits' =>
    have positive := List.length_pos_iff.mpr some_cells
    rw [List.length_append] at fits'
    have expects := left.expects (by omega)
    have front : takes.take taken.length = taken := by
      have whole := congrArg (List.take taken.length) agree
      rw [List.take_left' rfl, List.take_append_of_le_length (by omega)] at whole
      exact whole.symm
    have split : takes = taken ++ takes.drop taken.length := by
      rw [← front, List.length_take, Nat.min_eq_left (by omega), List.take_append_drop]
    refine ⟨takes.drop taken.length, sends, split, rfl, ?_⟩
    rw [Left, List.append_assoc, ← split]
    exact left
  | @received next got fits =>
    refine ⟨takes, sends, rfl, rfl, ?_⟩
    rcases got.eq_nil_or_concat with rfl | ⟨front, cell, rfl⟩
    · exact Prog.Talks.of_recv_none left
    · have after := (Prog.Talks.of_recv left (by simp)).2
      rw [List.take_left' rfl, List.drop_left' rfl] at after
      rw [if_neg (by simp)]
      exact after
  | @write next _ more some_cells =>
    obtain ⟨rest, rfl, after⟩ := Prog.Talks.of_send left
    exact ⟨takes, more ++ rest, rfl, List.append_assoc _ _ _, .send more after⟩
  | @written next =>
    obtain ⟨rest, same, after⟩ := Prog.Talks.of_send left
    exact ⟨takes, rest, rfl, same, after⟩

/-- An end that has not ended either has a step of its own or waits for cells that are to come. -/
theorem Left.can_move {e : End B A} {takes sends : List B} {a : A} (left : Left e takes sends a) :
    (∃ b, e.prog = .done b) ∨ (∃ e' pushed, Move e [] pushed e') ∨
      (takes ≠ [] ∧ (∃ n next, e.prog = .recv n next) ∧ ∀ cell, ∃ e', Move e [cell] [] e') := by
  obtain ⟨prog, got, fits⟩ := e
  cases prog with
  | done b => exact Or.inl ⟨b, rfl⟩
  | fail fault => exact (left.no_fault fault rfl).elim
  | send cells next =>
    have empty : got = [] := List.length_eq_zero_iff.mp (Nat.le_zero.mp fits)
    subst empty
    right; left
    cases cells with
    | nil => exact ⟨_, _, .written⟩
    | cons cell cells => exact ⟨_, _, .write [cell] cells (List.cons_ne_nil _ _)⟩
  | recv n next =>
    right
    rcases Nat.lt_or_eq_of_le fits with short | full
    · right
      have expects := left.expects (Nat.zero_lt_of_lt short)
      change got.length < n at short
      refine ⟨?_, ⟨n, next, rfl⟩, fun cell => ⟨_, .read [cell] (List.cons_ne_nil _ _) fits ?_⟩⟩
      · rw [← List.length_pos_iff]
        omega
      · rw [List.length_append]
        exact short
    · change got.length = n at full
      subst full
      exact Or.inl ⟨_, _, .received fits⟩

inductive Moves : End B A → List B → List B → End B A → Prop
  | stay (e : End B A) : Moves e [] [] e
  | more {e e' e'' : End B A} {taken taken' pushed pushed' : List B} (moved : Move e taken pushed e')
      (later : Moves e' taken' pushed' e'') : Moves e (taken ++ taken') (pushed ++ pushed') e''

theorem Moves.trans {e e' e'' : End B A} {taken taken' pushed pushed' : List B}
    (first : Moves e taken pushed e') (later : Moves e' taken' pushed' e'') :
    Moves e (taken ++ taken') (pushed ++ pushed') e'' := by
  induction first with
  | stay e => exact later
  | more moved _ ih =>
    rw [List.append_assoc, List.append_assoc]
    exact .more moved (ih later)

theorem moves_recv {next : Option (List B) → Prog B A} {cells : List B} (some_cells : cells ≠ []) :
    Moves (.fresh (.recv cells.length next)) cells [] (.fresh (next (some cells))) := by
  have read : Move (.fresh (.recv cells.length next)) cells [] ⟨.recv cells.length next, cells, Nat.le_refl _⟩ :=
    .read cells some_cells _ _
  have received := @Move.received _ _ next cells (Nat.le_refl _)
  rw [if_neg (by simpa using some_cells)] at received
  have moves := Moves.more read (.more received (.stay _))
  rwa [List.append_nil, List.append_nil] at moves

theorem moves_send {next : Prog B A} (cells : List B) :
    Moves (.fresh (.send cells next)) [] cells (.fresh next) := by
  have end_of : Moves (.fresh (.send [] next)) [] [] (.fresh next) := .more .written (.stay _)
  cases cells with
  | nil => exact end_of
  | cons cell cells =>
    have write := @Move.write _ _ next (cell :: cells) [] (List.cons_ne_nil _ _)
    rw [List.append_nil] at write
    have moves := Moves.more write end_of
    rwa [List.append_nil, List.append_nil] at moves

theorem moves_of_speaksFirst {p : Prog B A} (first : Prog.SpeaksFirst p) :
    ∃ sent q, Prog.Mute q ∧ Moves (.fresh p) [] sent (.fresh q) ∧
      ∀ input, Prog.run p input = { Prog.run q input with sent := sent ++ (Prog.run q input).sent } := by
  induction p with
  | done a => exact ⟨[], .done a, first, .stay _, fun input => rfl⟩
  | fail fault => exact ⟨[], .fail fault, first, .stay _, fun input => rfl⟩
  | recv n next => exact ⟨[], .recv n next, first, .stay _, fun input => rfl⟩
  | send cells next ih =>
    obtain ⟨sent, q, mute, moves, same⟩ := ih first
    refine ⟨cells ++ sent, q, mute, (moves_send cells).trans moves, ?_⟩
    intro input
    rw [Prog.run, same input, List.append_assoc]

theorem Prog.Talks.turns {p : Prog B A} {takes sends : List B} {a : A} (talks : Prog.Talks p takes sends a)
    (first : Prog.SpeaksFirst p) :
    ∃ q, Moves (.fresh p) [] sends (.fresh q) ∧ Prog.Talks q takes [] a := by
  obtain ⟨sent, q, mute, moves, same⟩ := moves_of_speaksFirst first
  have after : ∀ rest, Prog.run q (takes ++ rest) =
      { result := some (.ok a), unread := rest, sent := [] } ∧ sent = sends := by
    intro rest
    have whole := (same (takes ++ rest)).symm.trans (talks rest)
    have silent := Prog.mute_sends_nothing mute (takes ++ rest)
    have sent_all := congrArg Prog.Progress.sent whole
    rw [silent, List.append_nil] at sent_all
    refine ⟨Prog.Progress.ext ?_ ?_ silent, sent_all⟩
    · exact (congrArg Prog.Progress.result whole :)
    · exact (congrArg Prog.Progress.unread whole :)
  obtain ⟨_, rfl⟩ := after []
  exact ⟨q, moves, fun rest => (after rest).1⟩

theorem moves_of_run {p : Prog B A} {input unread sent : List B} {result : Except Fault A}
    (ran : Prog.run p input = { result := some result, unread := unread, sent := sent }) :
    ∃ taken, input = taken ++ unread ∧ Moves (.fresh p) taken sent (.fresh (Prog.compute result)) := by
  induction p generalizing input sent with
  | done a =>
    cases ran
    exact ⟨[], rfl, .stay _⟩
  | fail fault =>
    cases ran
    exact ⟨[], rfl, .stay _⟩
  | recv n next ih =>
    rw [Prog.run] at ran
    split at ran
    next zero =>
      subst zero
      obtain ⟨taken, split, moves⟩ := ih none ran
      have received := @Move.received _ _ next [] (Nat.le_refl _)
      exact ⟨taken, split, .more received moves⟩
    next positive =>
      split at ran
      next fits =>
        obtain ⟨taken, split, moves⟩ := ih _ ran
        have length : (input.take n).length = n := List.length_take_of_le fits
        have some_cells : input.take n ≠ [] := by
          rw [← List.length_pos_iff, length]
          exact Nat.pos_of_ne_zero positive
        have received := @moves_recv _ _ next _ some_cells
        rw [length] at received
        refine ⟨input.take n ++ taken, ?_, received.trans moves⟩
        rw [List.append_assoc, ← split, List.take_append_drop]
      next => cases ran
  | send cells next ih =>
    cases after : Prog.run next input with
    | mk reached left more =>
      rw [Prog.run, after] at ran
      cases ran
      obtain ⟨taken, split, moves⟩ := ih after
      exact ⟨taken, split, (moves_send cells).trans moves⟩

end Stream

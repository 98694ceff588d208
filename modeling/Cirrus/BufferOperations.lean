import Cirrus.CircularBuffer
import Cirrus.Lib.Machine

/-!
Programs that use `CircularBuffer`s, and the queues they should stand for: a
name holds a buffer, and every operation of the class is one step. `swap` names
a member `_full` that the class does not have, so whatever instantiates it is
rejected by the compiler.
-/
namespace CircularBuffer
variable {T : Type}

/-- The copy constructor: new slots, into which those of `rhs` are copied. -/
def copy (rhs : CircularBuffer T) (slots : Nat → T) : CircularBuffer T :=
  { rhs with buffer := fun i => if i < rhs.capacity then rhs.buffer i else slots i }

structure Members (T : Type) where
  buffer : Option (Nat → T) := none
  capacity : Nat := 0
  front : Nat := 0
  tail : Nat := 0

def members (c : CircularBuffer T) : Members T where
  buffer := some c.buffer
  capacity := c.capacity
  front := c.front
  tail := c.tail

/-- A buffer whose cursors are inside of its slots. -/
def Members.toBuffer (m : Members T) : Option (CircularBuffer T) :=
  m.buffer.bind fun buffer =>
    if inside : m.front < m.capacity ∧ m.tail < m.capacity then
      some ⟨buffer, m.capacity, m.front, m.tail, inside.1, inside.2⟩
    else none

/-- `std::swap` on one member, found by its name. -/
def exchange (both : Members T × Members T) : String → Option (Members T × Members T)
  | "_buffer" => some ({ both.1 with buffer := both.2.buffer }, { both.2 with buffer := both.1.buffer })
  | "_capacity" => some ({ both.1 with capacity := both.2.capacity }, { both.2 with capacity := both.1.capacity })
  | "_front" => some ({ both.1 with front := both.2.front }, { both.2 with front := both.1.front })
  | "_tail" => some ({ both.1 with tail := both.2.tail }, { both.2 with tail := both.1.tail })
  | _ => none

def swap (a b : Members T) : Option (Members T × Members T) :=
  ["_buffer", "_capacity", "_front", "_full"].foldlM exchange (a, b)

@[simp] theorem swap_not_built (a b : Members T) : swap a b = none := rfl

inductive Op (T : Type) where
  | construct (name capacity : Nat) (slots : Nat → T)
  | add (name : Nat) (item : T)
  | pop (name : Nat)
  | front (name : Nat)
  | size (name : Nat)
  | copy (name rhs : Nat) (slots : Nat → T)
  | move (name rhs : Nat)
  | assign (name rhs : Nat)

inductive Reply (T : Type) where
  | done
  | item (item : T)
  | size (size : Nat)
  | threw
  | doesNotBuild
  deriving DecidableEq

abbrev Store (T : Type) := Nat → Option (CircularBuffer T)

/-- One operation. A name that no buffer was constructed under does not build. -/
def step (s : Store T) : Op T → Store T × Reply T
  | .construct name capacity slots =>
    if positive : 0 < capacity then (Function.update s name (some (ofCapacity capacity positive slots)), .done)
    else (s, .threw)
  | .add name item =>
    match s name with
    | some c => (Function.update s name (some (c.add item)), .done)
    | none => (s, .doesNotBuild)
  | .pop name =>
    match s name with
    | some c =>
      match c.pop with
      | .ok (item, rest) => (Function.update s name (some rest), .item item)
      | .error _ => (s, .threw)
    | none => (s, .doesNotBuild)
  | .front name =>
    match s name with
    | some c =>
      match c.first with
      | .ok item => (s, .item item)
      | .error _ => (s, .threw)
    | none => (s, .doesNotBuild)
  | .size name =>
    match s name with
    | some c => (s, .size c.size)
    | none => (s, .doesNotBuild)
  | .copy name rhs slots =>
    match s rhs with
    | some c => (Function.update s name (some (c.copy slots)), .done)
    | none => (s, .doesNotBuild)
  | .move name rhs =>
    match (s rhs).bind fun c => swap {} c.members with
    | some (this, rest) => (Function.update (Function.update s rhs rest.toBuffer) name this.toBuffer, .done)
    | none => (s, .doesNotBuild)
  | .assign name rhs =>
    -- the argument is a copy of `rhs`
    match (s name).bind fun c => (s rhs).bind fun d => swap c.members (d.copy d.buffer).members with
    | some (this, _) => (Function.update s name this.toBuffer, .done)
    | none => (s, .doesNotBuild)

/-- What a buffer should be: its items in the order they were added. -/
structure Queue (T : Type) where
  capacity : Nat
  items : List T := []

namespace Queue

abbrev Store (T : Type) := Nat → Option (Queue T)

def step (q : Store T) : Op T → Store T × Reply T
  | .construct name capacity _ => (Function.update q name (some { capacity }), .done)
  | .add name item =>
    match q name with
    | some b => (Function.update q name (some { b with items := b.items ++ [item] }), .done)
    | none => (q, .doesNotBuild)
  | .pop name =>
    match q name with
    | some b =>
      match b.items with
      | item :: rest => (Function.update q name (some { b with items := rest }), .item item)
      | [] => (q, .threw)
    | none => (q, .doesNotBuild)
  | .front name =>
    match q name with
    | some b =>
      match b.items with
      | item :: _ => (q, .item item)
      | [] => (q, .threw)
    | none => (q, .doesNotBuild)
  | .size name =>
    match q name with
    | some b => (q, .size b.items.length)
    | none => (q, .doesNotBuild)
  | .copy name rhs _ =>
    match q rhs with
    | some b => (Function.update q name (some b), .done)
    | none => (q, .doesNotBuild)
  | .move name rhs =>
    match q rhs with
    | some b => (Function.update (Function.update q rhs none) name (some b), .done)
    | none => (q, .doesNotBuild)
  | .assign name rhs =>
    match q name, q rhs with
    | some _, some b => (Function.update q name (some b), .done)
    | _, _ => (q, .doesNotBuild)

def Within (q : Store T) : Op T → Prop
  | .construct _ capacity _ => 0 < capacity
  | .add name _ => ∃ b, q name = some b ∧ b.items.length < b.capacity
  | .pop name | .front name | .size name => (q name).isSome
  | .copy _ rhs _ | .move _ rhs => (q rhs).isSome
  | .assign name rhs => (q name).isSome ∧ (q rhs).isSome

/-- An added item is not the last one that there is a slot for, and nothing is moved or assigned. -/
def Roomy (q : Store T) : Op T → Prop
  | .add name _ => ∃ b, q name = some b ∧ b.items.length + 1 < b.capacity
  | .move _ _ | .assign _ _ => False
  | _ => True

end Queue

def Represents : Option (CircularBuffer T) → Option (Queue T) → Prop
  | none, none => True
  | some c, some b => c.capacity = b.capacity ∧ c.contents = b.items
  | _, _ => False

def Agree (s : Store T) (q : Queue.Store T) : Prop := ∀ name, Represents (s name) (q name)

theorem contents_copy (c : CircularBuffer T) (slots : Nat → T) : (c.copy slots).contents = c.contents := by
  apply List.map_congr_left
  intro i _
  have inside : (c.front + i) % c.capacity < c.capacity := Nat.mod_lt _ (Nat.zero_lt_of_lt c.front_lt)
  simp [copy, inside]

variable {s : Store T} {q : Queue.Store T}

theorem Agree.update (agree : Agree s q) (name : Nat) {c : Option (CircularBuffer T)} {b : Option (Queue T)}
    (here : Represents c b) : Agree (Function.update s name c) (Function.update q name b) := by
  intro other
  by_cases same : other = name
  · simpa [same] using here
  · simpa [same] using agree other

theorem agree_update_iff (agree : Agree s q) (name : Nat) (c : CircularBuffer T) (b : Queue T) :
    Agree (Function.update s name (some c)) (Function.update q name (some b)) ↔
      c.capacity = b.capacity ∧ c.contents = b.items := by
  constructor
  · intro later
    have here := later name
    simpa [Represents] using here
  · exact fun here => agree.update name here

theorem Agree.buffer (agree : Agree s q) {name : Nat} {b : Queue T} (here : q name = some b) :
    ∃ c, s name = some c ∧ c.capacity = b.capacity ∧ c.contents = b.items := by
  have represents := agree name
  rw [here] at represents
  cases there : s name with
  | none => simp [there, Represents] at represents
  | some c => exact ⟨c, rfl, by simpa [there, Represents] using represents⟩

theorem size_of_contents {c : CircularBuffer T} {items : List T} (contents : c.contents = items) :
    c.size = items.length := by
  rw [← contents, contents_length]

theorem contents_add_iff (c : CircularBuffer T) (item : T) :
    (c.add item).contents = c.contents ++ [item] ↔ c.size + 1 < c.capacity := by
  constructor
  · intro added
    have size := size_of_contents added
    have small := (c.add item).size_lt
    rw [size, List.length_append, contents_length] at small
    exact small
  · exact c.contents_add item

theorem step_agrees_iff (agree : Agree s q) {op : Op T} (within : Queue.Within q op) :
    ((step s op).2 = (Queue.step q op).2 ∧ Agree (step s op).1 (Queue.step q op).1) ↔ Queue.Roomy q op := by
  cases op with
  | construct name capacity slots =>
    have positive : 0 < capacity := within
    simp only [step, positive, dif_pos, Queue.step, Queue.Roomy, true_and, iff_true]
    exact agree.update name ⟨rfl, contents_ofCapacity capacity positive slots⟩
  | add name item =>
    obtain ⟨b, here, _⟩ := within
    obtain ⟨c, there, capacity, contents⟩ := agree.buffer here
    have room := contents_add_iff c item
    rw [contents, size_of_contents contents, capacity] at room
    simp only [step, there, Queue.step, here, true_and, agree_update_iff agree, Queue.Roomy, room,
      Option.some.injEq, exists_eq_left']
    exact and_iff_right capacity
  | pop name =>
    obtain ⟨b, here⟩ := Option.isSome_iff_exists.mp within
    obtain ⟨c, there, capacity, contents⟩ := agree.buffer here
    simp only [step, there, Queue.step, here, Queue.Roomy, iff_true]
    cases items : b.items with
    | nil =>
      have empty : c.size = 0 := by simp [size_of_contents contents, items]
      simpa [pop, empty] using agree
    | cons item rest =>
      obtain ⟨popped, left⟩ := c.pop_of_contents (contents.trans items)
      simp only [popped, true_and]
      exact agree.update name ⟨capacity, left⟩
  | front name =>
    obtain ⟨b, here⟩ := Option.isSome_iff_exists.mp within
    obtain ⟨c, there, _, contents⟩ := agree.buffer here
    simp only [step, there, Queue.step, here, Queue.Roomy, iff_true]
    cases items : b.items with
    | nil =>
      have empty : c.size = 0 := by simp [size_of_contents contents, items]
      simpa [first, empty] using agree
    | cons item rest => simpa [c.first_of_contents (contents.trans items)] using agree
  | size name =>
    obtain ⟨b, here⟩ := Option.isSome_iff_exists.mp within
    obtain ⟨c, there, _, contents⟩ := agree.buffer here
    simpa [step, there, Queue.step, here, Queue.Roomy, size_of_contents contents] using agree
  | copy name rhs slots =>
    obtain ⟨b, here⟩ := Option.isSome_iff_exists.mp within
    obtain ⟨c, there, capacity, contents⟩ := agree.buffer here
    simp only [step, there, Queue.step, here, Queue.Roomy, true_and, iff_true]
    exact agree.update name ⟨capacity, (contents_copy c slots).trans contents⟩
  | move name rhs =>
    obtain ⟨b, here⟩ := Option.isSome_iff_exists.mp within
    obtain ⟨c, there, _⟩ := agree.buffer here
    simp [step, there, Queue.step, here, Queue.Roomy]
  | assign name rhs =>
    obtain ⟨b, here⟩ := Option.isSome_iff_exists.mp within.1
    obtain ⟨b', here'⟩ := Option.isSome_iff_exists.mp within.2
    obtain ⟨c, there, _⟩ := agree.buffer here
    obtain ⟨c', there', _⟩ := agree.buffer here'
    simp [step, there, there', Queue.step, here, here', Queue.Roomy]

theorem agree_start : Agree (T := T) (fun _ => none) (fun _ => none) := fun _ => trivial

theorem fifo_iff (ops : List (Op T)) (within : Machine.Guarded Queue.step Queue.Within (fun _ => none) ops) :
    Machine.Lockstep step Queue.step Agree (fun _ => none) (fun _ => none) ops ↔
      Machine.Guarded Queue.step Queue.Roomy (fun _ => none) ops :=
  Machine.lockstep_iff (fun _ _ _ agree proper => step_agrees_iff agree proper) agree_start within

def oneItem : List (Op Nat) :=
  [.construct 0 2 (fun _ => 0), .add 0 7, .copy 1 0 (fun _ => 0), .pop 1, .add 1 8, .size 1]

theorem fifo_one_item :
    Machine.Lockstep step Queue.step Agree (fun _ => none) (fun _ => none) oneItem ↔
      Machine.Guarded Queue.step Queue.Roomy (fun _ => none) oneItem :=
  fifo_iff oneItem (by simp [oneItem, Machine.Guarded, Queue.Within, Queue.step])

def twoItems : List (Op Nat) :=
  [.construct 0 2 (fun _ => 0), .add 0 7, .add 0 8, .size 0, .pop 0]

theorem full_looks_empty :
    Machine.Guarded Queue.step Queue.Within (fun _ => none) twoItems ∧
      (Machine.replies step (fun _ => none) twoItems).map Prod.snd = [.done, .done, .done, .size 0, .threw] ∧
      (Machine.replies Queue.step (fun _ => none) twoItems).map Prod.snd =
        [.done, .done, .done, .size 2, .item 7] ∧
      ¬ Machine.Lockstep step Queue.step Agree (fun _ => none) (fun _ => none) twoItems := by
  refine ⟨by simp [twoItems, Machine.Guarded, Queue.Within, Queue.step], rfl, rfl, ?_⟩
  rintro ⟨_, _, _, _, _, _, size, _⟩
  cases size

end CircularBuffer

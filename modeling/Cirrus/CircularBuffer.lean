import Cirrus.Lib.Codec
import Mathlib.Data.List.Basic

/-!
`CircularBuffer`: a ring of slots with a front and a tail, and the queue it
stands for. `add` does not look whether a slot is free.
-/

structure CircularBuffer (T : Type) where
  buffer : Nat → T
  capacity : Nat
  front : Nat
  tail : Nat
  front_lt : front < capacity
  tail_lt : tail < capacity

namespace CircularBuffer
variable {T : Type}

theorem hundredThousand_pos : 0 < 100000 := by decide

/-- A new ring; its slots hold anything. -/
def ofCapacity (capacity : Nat) (positive : 0 < capacity) (garbage : Nat → T) : CircularBuffer T where
  buffer := garbage
  capacity := capacity
  front := 0
  tail := 0
  front_lt := positive
  tail_lt := positive

variable (c : CircularBuffer T)

def size : Nat := if c.tail < c.front then c.capacity - c.front + c.tail else c.tail - c.front

/-- `front()`, which throws on an empty ring. -/
def first : Except Fault T :=
  if c.size = 0 then .error (.exception "front(): Empty circular buffer") else .ok (c.buffer c.front)

def advance : CircularBuffer T :=
  { c with front := (c.front + 1) % c.capacity, front_lt := Nat.mod_lt _ (Nat.zero_lt_of_lt c.front_lt) }

def pop : Except Fault (T × CircularBuffer T) :=
  if c.size = 0 then .error (.exception "pop: Empty circular buffer") else .ok (c.buffer c.front, c.advance)

def add (item : T) : CircularBuffer T where
  buffer := Function.update c.buffer c.tail item
  capacity := c.capacity
  front := c.front
  tail := if c.tail + 1 = c.capacity then 0 else c.tail + 1
  front_lt := c.front_lt
  tail_lt := by
    have := c.tail_lt
    split <;> omega

/-- A write through the reference that `front()` returns. -/
def setFirst (item : T) : CircularBuffer T := { c with buffer := Function.update c.buffer c.front item }

/-- The queue a ring stands for. -/
def contents : List T := (List.range c.size).map fun i => c.buffer ((c.front + i) % c.capacity)

@[simp] theorem contents_length : c.contents.length = c.size := by simp [contents]

theorem contents_ofCapacity (capacity : Nat) (positive : 0 < capacity) (garbage : Nat → T) :
    (ofCapacity capacity positive garbage).contents = [] := by
  simp [contents, size, ofCapacity]

theorem size_lt : c.size < c.capacity := by
  have front := c.front_lt
  have tail := c.tail_lt
  unfold size
  split <;> omega

theorem tail_eq : c.tail = (c.front + c.size) % c.capacity := by
  have front := c.front_lt
  have tail := c.tail_lt
  unfold size
  split
  · rw [show c.front + (c.capacity - c.front + c.tail) = c.tail + c.capacity by omega, Nat.add_mod_right,
      Nat.mod_eq_of_lt tail]
  · rw [show c.front + (c.tail - c.front) = c.tail by omega, Nat.mod_eq_of_lt tail]

theorem slot_ne {i j : Nat} (different : i < j) (small : j < c.capacity) :
    (c.front + i) % c.capacity ≠ (c.front + j) % c.capacity := by
  have front := c.front_lt
  intro same
  rcases Nat.lt_or_ge (c.front + i) c.capacity with low | high
  · rcases Nat.lt_or_ge (c.front + j) c.capacity with low' | high'
    · rw [Nat.mod_eq_of_lt low, Nat.mod_eq_of_lt low'] at same
      omega
    · rw [Nat.mod_eq_of_lt low, Nat.mod_eq_sub_mod high', Nat.mod_eq_of_lt (by omega)] at same
      omega
  · rw [Nat.mod_eq_sub_mod high, Nat.mod_eq_of_lt (by omega), Nat.mod_eq_sub_mod (by omega),
      Nat.mod_eq_of_lt (by omega)] at same
    omega

theorem size_add (item : T) (free : c.size + 1 < c.capacity) : (c.add item).size = c.size + 1 := by
  have front := c.front_lt
  have tail := c.tail_lt
  unfold size at free ⊢
  unfold add
  dsimp only
  split at free <;> split <;> split <;> omega

theorem contents_add (item : T) (free : c.size + 1 < c.capacity) :
    (c.add item).contents = c.contents ++ [item] := by
  have size := c.size_add item free
  unfold contents
  rw [size, List.range_succ, List.map_append, List.map_singleton]
  congr 1
  · apply List.map_congr_left
    intro i inside
    rw [List.mem_range] at inside
    have other : (c.front + i) % c.capacity ≠ c.tail := by
      rw [c.tail_eq]
      exact c.slot_ne inside (by omega)
    exact Function.update_of_ne other _ _
  · have last : (c.front + c.size) % c.capacity = c.tail := c.tail_eq.symm
    simp [add, last]

theorem contents_uncons (some_item : c.size ≠ 0) :
    c.contents = c.buffer c.front ::
      (List.range (c.size - 1)).map fun i => c.buffer ((c.front + 1 + i) % c.capacity) := by
  unfold contents
  obtain ⟨size, rest⟩ := Nat.exists_eq_succ_of_ne_zero some_item
  rw [rest, List.range_succ_eq_map, List.map_cons, List.map_map, Nat.add_zero, Nat.mod_eq_of_lt c.front_lt]
  congr 1
  apply List.map_congr_left
  intro i _
  simp only [Function.comp_apply]
  rw [show c.front + (i + 1) = c.front + 1 + i by omega]

theorem first_of_contents {item : T} {rest : List T} (here : c.contents = item :: rest) : c.first = .ok item := by
  have some_item : c.size ≠ 0 := by
    rw [← c.contents_length, here]
    simp
  have uncons := c.contents_uncons some_item
  rw [here, List.cons.injEq] at uncons
  unfold first
  rw [if_neg some_item, uncons.1]

theorem size_advance (some_item : c.size ≠ 0) : c.advance.size = c.size - 1 := by
  have front := c.front_lt
  have tail := c.tail_lt
  unfold size at some_item ⊢
  unfold advance
  simp only
  rcases Nat.lt_or_ge (c.front + 1) c.capacity with inside | past
  · simp only [Nat.mod_eq_of_lt inside]
    split at some_item <;> split <;> omega
  · simp only [show c.front + 1 = c.capacity by omega, Nat.mod_self]
    split at some_item <;> split <;> omega

theorem pop_of_contents {item : T} {rest : List T} (here : c.contents = item :: rest) :
    c.pop = .ok (item, c.advance) ∧ c.advance.contents = rest := by
  have some_item : c.size ≠ 0 := by
    rw [← c.contents_length, here]
    simp
  have uncons := c.contents_uncons some_item
  rw [here, List.cons.injEq] at uncons
  constructor
  · unfold pop
    rw [if_neg some_item, ← uncons.1]
  · rw [uncons.2]
    unfold contents
    rw [c.size_advance some_item]
    apply List.map_congr_left
    intro i _
    unfold advance
    rw [Nat.mod_add_mod]

theorem contents_setFirst (new : T) {item : T} {rest : List T} (here : c.contents = item :: rest) :
    (c.setFirst new).contents = new :: rest := by
  have some_item : c.size ≠ 0 := by
    rw [← c.contents_length, here]
    simp
  have uncons := c.contents_uncons some_item
  have uncons' := (c.setFirst new).contents_uncons some_item
  have small := c.size_lt
  rw [here, List.cons.injEq] at uncons
  rw [uncons', uncons.2]
  congr 1
  · exact Function.update_self _ _ _
  · apply List.map_congr_left
    intro i inside
    rw [List.mem_range] at inside
    have size : (c.setFirst new).size = c.size := rfl
    have other : (c.front + (1 + i)) % c.capacity ≠ (c.front + 0) % c.capacity :=
      (c.slot_ne (by omega) (by omega)).symm
    rw [Nat.add_zero, Nat.mod_eq_of_lt c.front_lt, ← Nat.add_assoc] at other
    exact Function.update_of_ne other _ _

end CircularBuffer

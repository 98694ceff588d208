import Mathlib.Data.List.Basic

/- Vectors whose block of cells may be larger than they are. The first `size` cells are the elements;
   the block is replaced when a larger one is asked for, and only the elements are kept then. -/
namespace Reserving
variable {F : Type}

structure Reserved (F : Type) where
  cells : List F
  size : Nat
  fits : size ≤ cells.length

namespace Reserved

def empty : Reserved F := ⟨[], 0, Nat.le_refl _⟩

def ofList (l : List F) : Reserved F := ⟨l, l.length, Nat.le_refl _⟩

def capacity (v : Reserved F) : Nat := v.cells.length

/-- The cells past the elements of a new block hold a value that nobody has chosen. -/
def reserve (fill : F) (v : Reserved F) (n : Nat) : Reserved F :=
  if n ≤ v.capacity then v else
    { cells := v.cells.take v.size ++ List.replicate (n - v.size) fill
      size := v.size
      fits := by
        rw [List.length_append, List.length_take_of_le v.fits]
        exact Nat.le_add_right _ _ }

def resize (fill : F) (v : Reserved F) (n : Nat) : Reserved F where
  cells := v.cells.take (min n v.size) ++ (List.replicate (n - v.size) fill ++ v.cells.drop n)
  size := n
  fits := by
    have := v.fits
    rw [List.length_append, List.length_append, List.length_take, List.length_replicate, List.length_drop]
    omega

/-- The cell `i` of the block gets a value; that does not make it an element. -/
def set (v : Reserved F) (i : Nat) (x : F) : Reserved F where
  cells := v.cells.set i x
  size := v.size
  fits := by
    rw [List.length_set]
    exact v.fits

variable {v : Reserved F} {fill : F} {n : Nat}

theorem capacity_eq_zero : v.capacity = 0 ↔ v.cells = [] := List.length_eq_zero_iff

theorem reserve_of_le (enough : n ≤ v.capacity) : v.reserve fill n = v := if_pos enough

theorem reserve_size : (v.reserve fill n).size = v.size := by
  rw [reserve]
  split <;> rfl

theorem reserve_capacity : n ≤ (v.reserve fill n).capacity := by
  rw [reserve]
  split
  next enough => exact enough
  next =>
    rw [capacity, List.length_append, List.length_take_of_le v.fits, List.length_replicate]
    omega

theorem reserve_cells (small : v.capacity < n) (none : v.size = 0) :
    (v.reserve fill n).cells = List.replicate n fill := by
  rw [reserve, if_neg (by omega)]
  dsimp only
  rw [none, List.take_zero, List.nil_append, Nat.sub_zero]

theorem resize_cells (none : v.capacity = 0) : (v.resize fill n).cells = List.replicate n fill := by
  have size : v.size = 0 := Nat.le_zero.mp (none ▸ v.fits)
  change v.cells.take _ ++ (List.replicate (n - v.size) fill ++ v.cells.drop n) = _
  rw [size, capacity_eq_zero.mp none, List.take_nil, List.drop_nil, List.nil_append, List.append_nil, Nat.sub_zero]

end Reserved
end Reserving

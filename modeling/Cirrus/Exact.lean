import Cirrus.SparseLRModel
import Mathlib.Algebra.Order.Field.Rat
import Mathlib.Algebra.Order.Group.Unbundled.Abs

/-!
Runs over exact arithmetic: the numbers are the rationals, and a message is a
list of cells that hold a byte or a number each.
-/
namespace Exact
open Gradients SparseLR

/-- The logistic function is exact at 0, and rounded to 0 or 1 elsewhere. No run takes a root. -/
instance exactOps : FloatOps ℚ where
  sqrt x := x
  sigmoid x := some (if x = 0 then 1 / 2 else if 0 < x then 1 else 0)
  isZero x := x = 0
  absGreater x y := y < |x|

def widen {B α : Type} {size : Nat} (c : Codec UInt8 α size) (up : UInt8 → B) (down : B → UInt8)
    (back : ∀ b, down (up b) = b) : Codec B α size where
  put a := (c.put a).map up
  get cells := c.get (cells.map down)
  put_length a := by rw [List.length_map, c.put_length]
  get_put a := by
    rw [List.map_map]
    have same : down ∘ up = id := funext back
    rw [same, List.map_id, c.get_put]

def number : Codec ℚ ℚ 4 where
  put x := [x, 0, 0, 0]
  get cells := cells.headD 0
  put_length _ := rfl
  get_put _ := rfl

def wire : Wire ℚ ℚ where
  u32 := widen Wire.littleEndian.u32 (fun b => (b.toNat : ℚ)) (fun x => UInt8.ofNat x.num.toNat)
    (fun b => by simp)
  u64 := widen Wire.littleEndian.u64 (fun b => (b.toNat : ℚ)) (fun x => UInt8.ofNat x.num.toNat)
    (fun b => by simp)
  feature := number
  nul := 0

end Exact

import Cirrus.Exact
import Cirrus.MFCopy
import Cirrus.SoftmaxCopy

/-!
`copy()` of the four classes of models, in every state that construction, loading
and updates lead to. `LRModel` keeps its promise of a copy, `SparseLRModel` if its
weights are not in the block, and the others only in the states in which what they
leave out is what they put in its place.
-/
namespace Models
open Gradients SparseLR LR Softmax MF
variable {B F : Type}

inductive CirrusModel (F : Type)
  | lr (m : LRModel F)
  | sparseLr (m : SparseLRModel F)
  | softmax (m : SoftmaxModel F)
  | mf (m : MFModel F)

namespace CirrusModel
variable [Zero F] [One F] [Neg F] [Add F] [Sub F] [Mul F] [Div F] [OfScientific F] [FloatOps F]
variable (w : Wire B F) (normal : UInt64 → Nat → F) (ops : LossOps F)

/-- No update changes the class of an object. -/
def Reached : CirrusModel F → Prop
  | .lr m => (LRModel.objectClass w ops).Reached m
  | .sparseLr m => (SparseLRModel.objectClass w ops).Reached m
  | .softmax m => (SoftmaxModel.objectClass w ops).Reached m
  | .mf m => (MFModel.objectClass w normal ops.toLossOps).Reached m

/-- `copy()` returns a model with the same dimensions, weights and biases, predictions and losses. -/
def Faithful : CirrusModel F → Prop
  | .lr m => (LRModel.objectClass w ops).Faithful m
  | .sparseLr m => (SparseLRModel.objectClass w ops).Faithful m
  | .softmax m => (SoftmaxModel.objectClass w ops).Faithful m
  | .mf m => (MFModel.objectClass w normal ops.toLossOps).Faithful m

def Copyable (normal : UInt64 → Nat → F) : CirrusModel F → Prop
  | .lr _ => True
  | .sparseLr m => m.isSparse = false
  | .softmax m => m.OneRow
  | .mf m => m.AsDrawn normal

theorem faithful_iff_copyable {m : CirrusModel F} (reached : m.Reached w normal ops) :
    m.Faithful w normal ops ↔ m.Copyable normal := by
  cases m with
  | lr m => exact iff_of_true (LRModel.copy_faithful reached) trivial
  | sparseLr m => exact SparseLRModel.copy_faithful_iff reached
  | softmax m => exact SoftmaxModel.copy_faithful_iff reached
  | mf m => exact MFModel.copy_faithful_iff reached

end CirrusModel

section Example

/-- The exponential and the logarithm are exact at 0 and at 1, and no value is infinite. -/
def exactLosses : LossOps ℚ where
  exp x := x + 1
  log x := x - 1
  less x y := x < y
  isNan _ := false
  isInf _ := false
  pow2 x := x * x
  toString _ := ""
  dot xs ys := (List.zipWith (· * ·) xs ys).sum
  sum := List.sum
  equal x y := x = y
  isInteger x := x.den = 1
  ofNat n := n
  toIndex x := if 0 ≤ x then some x.floor.toNat else none

def noDraws : UInt64 → Nat → ℚ := fun _ _ => 0

def untrained : SoftmaxModel ℚ := ⟨2, 2, [[0, 0], [0, 0]]⟩

def trained : SoftmaxModel ℚ := ⟨2, 2, [[1, 2], [3, 4]]⟩

def biased : MFModel ℚ := ⟨1, 1, 0, [], [], [1], [0], MFModel.initialGlobalBias⟩

theorem untrained_reached : (CirrusModel.softmax untrained).Reached Exact.wire noDraws exactLosses :=
  .start (.ofSize (show SoftmaxModel.ofSize 2 2 = .ok untrained from rfl))

theorem trained_reached : (CirrusModel.softmax trained).Reached Exact.wire noDraws exactLosses :=
  .step untrained_reached trivial (l := .sgdUpdate 1 [[-1, -2], [-3, -4]]) (by decide +kernel)

theorem biased_sized : biased.Sized :=
  ⟨rfl, rfl, rfl, rfl, by decide, by decide⟩

theorem biased_reached : (CirrusModel.mf biased).Reached Exact.wire noDraws exactLosses :=
  .start (.ofData (MFModel.loadInto_serializeTo Exact.wire biased_sized rfl (by decide) (by decide) (by decide) _ []))

theorem untrained_oneRow : untrained.OneRow :=
  ⟨rfl, by decide, by decide⟩

theorem biased_not_asDrawn : ¬ biased.AsDrawn noDraws :=
  fun asDrawn => one_ne_zero (asDrawn.userBias 1 List.mem_cons_self)

theorem new_copied : (CirrusModel.softmax untrained).Faithful Exact.wire noDraws exactLosses ∧
    ¬ (CirrusModel.mf biased).Faithful Exact.wire noDraws exactLosses := by
  constructor
  · exact (CirrusModel.faithful_iff_copyable _ _ _ untrained_reached).mpr untrained_oneRow
  · exact fun faithful => biased_not_asDrawn ((CirrusModel.faithful_iff_copyable _ _ _ biased_reached).mp faithful)

/-- The copy of a trained model has its first row twice, and that of a loaded one has no bias. -/
theorem second_row_lost :
    (CirrusModel.softmax trained).Reached Exact.wire noDraws exactLosses ∧
      trained.copy = .ok ⟨2, 2, [[1, 2], [1, 2]]⟩ ∧
      ¬ (CirrusModel.softmax trained).Faithful Exact.wire noDraws exactLosses ∧
      (CirrusModel.mf biased).Reached Exact.wire noDraws exactLosses ∧
      ¬ (CirrusModel.mf biased).Faithful Exact.wire noDraws exactLosses := by
  have copied : trained.copy = .ok ⟨2, 2, [[1, 2], [1, 2]]⟩ := rfl
  refine ⟨trained_reached, copied, ?_, biased_reached, ?_⟩
  · rintro ⟨c, made, same, _⟩
    obtain rfl := Except.ok.inj (copied.symm.trans made)
    exact absurd (SoftmaxModel.parameters_inj same) (by decide +kernel)
  · exact fun faithful => biased_not_asDrawn ((MFModel.copy_faithful_iff biased_reached).mp faithful)

end Example
end Models

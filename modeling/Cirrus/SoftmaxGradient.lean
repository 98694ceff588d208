import Cirrus.Lib.Codec
import Cirrus.Lib.Loops
import Mathlib.Algebra.BigOperators.Field
import Mathlib.Analysis.SpecialFunctions.Exp
import Mathlib.Analysis.SpecialFunctions.Log.Basic
import Mathlib.LinearAlgebra.LinearIndependent.Defs
import Mathlib.LinearAlgebra.Matrix.RowCol

/-!
`SoftmaxModel::minibatch_grad` over exact arithmetic. It divides the exponentials
by the sum of all of them, and by the number of samples only where the label is.
-/
namespace Softmax
open Matrix
variable {F : Type} {n d K : Nat}

structure ExpOps (F : Type) where
  exp : F → F
  log : F → F
  less : F → F → Bool
  isNan : F → Bool
  isInf : F → Bool

section Code
variable [Field F] (ops : ExpOps F)

def ExpOps.invalid (v : F) : Bool := ops.isNan v || ops.isInf v

/-- `scores.unaryExpr`, which throws at a value that is not one. -/
def expScores (scores : Matrix (Fin n) (Fin K) F) : Except Fault (Matrix (Fin n) (Fin K) F) :=
  if ∃ i k, ops.invalid (ops.exp (scores i k)) then .error (.exception "Invalid value after exp")
  else .ok (scores.map ops.exp)

/-- `logprobs[i]`, which is 0 at first. -/
def logprob (probs : Matrix (Fin n) (Fin K) F) (labels : Fin n → Fin K) (i : Fin n) : F :=
  if ops.less (probs i (labels i)) 1e-10 then 0 - 1e-10 else 0 - ops.log (probs i (labels i))

/-- A turn of the last loop: `dscores(i, labels[i]) -= 1`, and then `/= dataset.rows()`. -/
def averageLabel (labels : Fin n → Fin K) (dscores : Matrix (Fin n) (Fin K) F) (i : Fin n) : Matrix (Fin n) (Fin K) F :=
  let dscores := dscores.updateRow i (Function.update (dscores i) (labels i) (dscores i (labels i) - 1))
  dscores.updateRow i (Function.update (dscores i) (labels i) (dscores i (labels i) / n))

/-- The gradient for these samples and their labels, at the weights of a model. The matrices are those that the first
loops copy the arrays to, and the labels the indices that the floats of `labels` convert to. -/
def minibatchGrad (dataset : Matrix (Fin n) (Fin d) F) (labels : Fin n → Fin K) (W : Matrix (Fin d) (Fin K) F)
    (epsilon : F) : Except Fault (Matrix (Fin d) (Fin K) F) := do
  let scores := dataset * W
  let expScores ← expScores ops scores
  let expScoresSum := ∑ i, ∑ k, expScores i k
  let probs := expScores.map fun v => v / expScoresSum
  if ∃ i, ops.invalid (logprob ops probs labels i) then throw (.exception "Invalid logprob")
  let dscores := (List.finRange n).foldl (averageLabel labels) probs
  let dW := dataset.transpose * dscores
  pure (dW + epsilon • W)

theorem averageLabel_apply (labels : Fin n → Fin K) (dscores : Matrix (Fin n) (Fin K) F) (i j : Fin n) (k : Fin K) :
    averageLabel labels dscores j i k =
      if i = j ∧ k = labels j then (dscores i k - 1) / n else dscores i k := by
  unfold averageLabel
  by_cases row : i = j
  · subst row
    by_cases column : k = labels i
    · subst column
      simp
    · simp [column]
  · simp [row]

theorem averageLabel_foldl (labels : Fin n → Fin K) {samples : List (Fin n)} (once : samples.Nodup)
    (probs : Matrix (Fin n) (Fin K) F) (i : Fin n) (k : Fin K) :
    samples.foldl (averageLabel labels) probs i k =
      if i ∈ samples ∧ k = labels i then (probs i k - 1) / n else probs i k := by
  induction samples generalizing probs with
  | nil => rfl
  | cons j rest ih =>
    obtain ⟨apart, once⟩ := List.nodup_cons.mp once
    rw [List.foldl_cons, ih once, averageLabel_apply]
    by_cases row : i = j
    · subst row
      simp [apart]
    · simp [row]

end Code

section Exact

noncomputable def realOps : ExpOps ℝ where
  exp := Real.exp
  log := Real.log
  less a b := a < b
  isNan _ := false
  isInf _ := false

variable (X : Matrix (Fin n) (Fin d) ℝ) (labels : Fin n → Fin K) (W : Matrix (Fin d) (Fin K) ℝ)

noncomputable def rowSum (scores : Matrix (Fin n) (Fin K) ℝ) (i : Fin n) : ℝ := ∑ k, Real.exp (scores i k)

noncomputable def softmax (scores : Matrix (Fin n) (Fin K) ℝ) : Matrix (Fin n) (Fin K) ℝ := fun i k =>
  Real.exp (scores i k) / rowSum scores i

def oneHot : Matrix (Fin n) (Fin K) ℝ := fun i k => if k = labels i then 1 else 0

/-- The gradient of the mean cross-entropy, and of the penalty on the weights. -/
noncomputable def crossEntropyGrad (epsilon : ℝ) : Matrix (Fin d) (Fin K) ℝ :=
  (1 / n : ℝ) • (X.transpose * (softmax (X * W) - oneHot labels)) + epsilon • W

theorem rowSum_pos (scores : Matrix (Fin n) (Fin K) ℝ) (some_class : 0 < K) (i : Fin n) : 0 < rowSum scores i :=
  Finset.sum_pos (fun _ _ => Real.exp_pos _) ⟨⟨0, some_class⟩, Finset.mem_univ _⟩

theorem softmax_sum (scores : Matrix (Fin n) (Fin K) ℝ) (some_class : 0 < K) (i : Fin n) : ∑ k, softmax scores i k = 1 := by
  unfold softmax
  rw [← Finset.sum_div]
  exact div_self (rowSum_pos scores some_class i).ne'

/-- What the function has of a score, where `total` is the sum of all exponentials. -/
noncomputable def dscore (scores : Matrix (Fin n) (Fin K) ℝ) (total : ℝ) (i : Fin n) (k : Fin K) : ℝ :=
  if k = labels i then (Real.exp (scores i k) / total - 1) / n else Real.exp (scores i k) / total

theorem minibatchGrad_real (epsilon : ℝ) :
    minibatchGrad realOps X labels W epsilon =
      .ok (X.transpose * Matrix.of (dscore labels (X * W) (∑ i, rowSum (X * W) i)) + epsilon • W) := by
  have valid : ∀ v, ¬ ExpOps.invalid realOps v := fun v => Bool.false_ne_true
  have exponentials : expScores realOps (X * W) = .ok ((X * W).map Real.exp) :=
    if_neg fun ⟨i, k, wrong⟩ => valid _ wrong
  have scores : (List.finRange n).foldl (averageLabel labels) (((X * W).map Real.exp).map fun v => v / ∑ i, rowSum (X * W) i) =
      Matrix.of (dscore labels (X * W) (∑ i, rowSum (X * W) i)) := by
    ext i k
    rw [averageLabel_foldl labels (List.nodup_finRange n)]
    simp [dscore]
  unfold minibatchGrad
  dsimp only
  rw [Loops.bind_of_ok exponentials, if_neg fun ⟨i, wrong⟩ => valid _ wrong]
  exact congrArg (fun D => Except.ok (X.transpose * D + epsilon • W)) scores

/-- By how much, up to a factor, the score of a sample and a class is off. The sum of a sample's exponentials should
divide them, and the number of samples all of them. -/
noncomputable def excess (scores : Matrix (Fin n) (Fin K) ℝ) (i : Fin n) (k : Fin K) : ℝ :=
  Real.exp (scores i k) * ((if k = labels i then 1 else n) - (∑ j, rowSum scores j) / rowSum scores i)

theorem dscore_sub (scores : Matrix (Fin n) (Fin K) ℝ) (i : Fin n) (k : Fin K) :
    dscore labels scores (∑ j, rowSum scores j) i k - 1 / n * (softmax scores i k - oneHot labels i k) =
      excess labels scores i k / (n * ∑ j, rowSum scores j) := by
  have positive : 0 < ∑ j, rowSum scores j := Finset.sum_pos (fun j _ => rowSum_pos scores k.pos j) ⟨i, Finset.mem_univ i⟩
  have all := positive.ne'
  have row := (rowSum_pos scores k.pos i).ne'
  have samples : (n : ℝ) ≠ 0 := Nat.cast_ne_zero.mpr i.pos.ne'
  unfold dscore softmax oneHot excess
  generalize (∑ j, rowSum scores j) = total at *
  split <;> field_simp <;> ring

/-- The function's gradient is the right one if the excess of no class correlates with a feature. -/
theorem gradients_agree (epsilon : ℝ) :
    X.transpose * Matrix.of (dscore labels (X * W) (∑ i, rowSum (X * W) i)) + epsilon • W =
      crossEntropyGrad X labels W epsilon ↔ ∀ f k, ∑ i, X i f * excess labels (X * W) i k = 0 := by
  have entry (f : Fin d) (k : Fin K) :
      (X.transpose * Matrix.of (dscore labels (X * W) (∑ i, rowSum (X * W) i))) f k -
        ((1 / n : ℝ) • (X.transpose * (softmax (X * W) - oneHot labels))) f k =
      (∑ i, X i f * excess labels (X * W) i k) / (n * ∑ j, rowSum (X * W) j) := by
    rw [Matrix.smul_apply, Matrix.mul_apply, Matrix.mul_apply, smul_eq_mul, Finset.mul_sum, ← Finset.sum_sub_distrib,
      Finset.sum_div]
    apply Finset.sum_congr rfl
    intro i _
    rw [mul_div_assoc, ← dscore_sub labels (X * W) i k, Matrix.transpose_apply, Matrix.of_apply, Matrix.sub_apply]
    ring
  rw [crossEntropyGrad, add_left_inj, ← Matrix.ext_iff]
  apply forall_congr'
  intro f
  apply forall_congr'
  intro k
  rw [← sub_eq_zero, entry, div_eq_zero_iff, or_iff_left_of_imp]
  intro none_divides
  rcases Nat.eq_zero_or_pos n with rfl | some_sample
  · exact Finset.sum_of_isEmpty _
  · have total : 0 < ∑ j, rowSum (X * W) j :=
      Finset.sum_pos (fun j _ => rowSum_pos (X * W) k.pos j) ⟨⟨0, some_sample⟩, Finset.mem_univ _⟩
    have samples : (0 : ℝ) < n := Nat.cast_pos.mpr some_sample
    exact absurd none_divides (mul_pos samples total).ne'

/-- The function computes the gradient of the mean cross-entropy exactly where the two agree. -/
theorem minibatchGrad_iff (epsilon : ℝ) :
    minibatchGrad realOps X labels W epsilon = .ok (crossEntropyGrad X labels W epsilon) ↔
      ∀ f k, ∑ i, X i f * excess labels (X * W) i k = 0 := by
  rw [minibatchGrad_real, ← gradients_agree X labels W epsilon]
  exact ⟨Except.ok.inj, congrArg Except.ok⟩

theorem minibatchGrad_single (X : Matrix (Fin 1) (Fin d) ℝ) (labels : Fin 1 → Fin K) (W : Matrix (Fin d) (Fin K) ℝ)
    (epsilon : ℝ) : minibatchGrad realOps X labels W epsilon = .ok (crossEntropyGrad X labels W epsilon) := by
  rw [minibatchGrad_real]
  congr 1
  apply (gradients_agree X labels W epsilon).mpr
  intro f k
  have row := (rowSum_pos (X * W) k.pos 0).ne'
  simp [excess, row]

theorem rowSum_of_excess {scores : Matrix (Fin n) (Fin K) ℝ} {i : Fin n} (none : excess labels scores i (labels i) = 0) :
    rowSum scores i = ∑ j, rowSum scores j := by
  have row := rowSum_pos scores (labels i).pos i
  have ratio := (mul_eq_zero.mp none).resolve_left (Real.exp_pos _).ne'
  rw [if_pos rfl, Nat.cast_one, sub_eq_zero, eq_div_iff row.ne', one_mul] at ratio
  exact ratio

/-- For samples that are linearly independent the two agree only where there are not two of them. -/
theorem minibatchGrad_iff_few (epsilon : ℝ) (independent : LinearIndependent ℝ X.row) :
    minibatchGrad realOps X labels W epsilon = .ok (crossEntropyGrad X labels W epsilon) ↔ n ≤ 1 := by
  constructor
  · intro same
    rw [minibatchGrad_real, Except.ok.injEq, gradients_agree] at same
    have none : ∀ k i, excess labels (X * W) i k = 0 := by
      intro k
      apply Fintype.linearIndependent_iff.mp independent
      ext f
      rw [Finset.sum_apply, Pi.zero_apply, ← same f k]
      exact Finset.sum_congr rfl fun i _ => mul_comm _ _
    by_contra many
    have two : (⟨0, by omega⟩ : Fin n) ≠ ⟨1, by omega⟩ := by simp
    have positive := fun i : Fin n => rowSum_pos (X * W) (labels i).pos i
    have more : rowSum (X * W) ⟨0, by omega⟩ < ∑ j, rowSum (X * W) j :=
      Finset.single_lt_sum two.symm (Finset.mem_univ _) (Finset.mem_univ _) (positive _) fun j _ _ => (positive j).le
    exact more.ne (rowSum_of_excess labels (none _ _))
  · intro few
    obtain rfl | rfl : n = 0 ∨ n = 1 := by omega
    · rw [minibatchGrad_real, Except.ok.injEq, gradients_agree]
      exact fun f k => Finset.sum_of_isEmpty _
    · exact minibatchGrad_single X labels W epsilon

/-- Two samples of one feature that is 1, with different labels, and no weights yet: the scores of a class should
cancel out. -/
theorem two_samples_off :
    minibatchGrad realOps (Matrix.of fun (_ : Fin 2) (_ : Fin 1) => (1 : ℝ)) (fun i : Fin 2 => i) 0 0 ≠
      .ok (crossEntropyGrad (Matrix.of fun (_ : Fin 2) (_ : Fin 1) => (1 : ℝ)) (fun i : Fin 2 => i) 0 0) := by
  rw [minibatchGrad_real]
  intro same
  have entry := congrFun (congrFun (Except.ok.inj same) 0) 0
  simp [crossEntropyGrad, dscore, rowSum, softmax, oneHot, Matrix.mul_apply] at entry
  norm_num at entry

end Exact
end Softmax

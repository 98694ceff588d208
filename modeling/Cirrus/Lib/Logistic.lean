import Mathlib.Algebra.Order.Chebyshev
import Mathlib.Algebra.Order.BigOperators.Ring.Finset
import Mathlib.Analysis.Calculus.Deriv.MeanValue
import Mathlib.Analysis.SpecialFunctions.Log.Deriv
import Mathlib.Analysis.SpecialFunctions.Sigmoid

/-
The cross-entropy of a linear model with a logistic link, and its gradient. Two
bounds say what the gradient is without a limit: the loss lies above its tangent
everywhere, and not further above it than an eighth of the square.
-/
namespace Logistic
open Real

section Softplus

noncomputable def softplus (t : ℝ) : ℝ := log (1 + exp t)

theorem hasDerivAt_softplus (t : ℝ) : HasDerivAt softplus (sigmoid t) t := by
  have positive : 1 + exp t ≠ 0 := (add_pos one_pos (exp_pos t)).ne'
  have inner : HasDerivAt (fun t => 1 + exp t) (exp t) t := (hasDerivAt_exp t).const_add 1
  have slope : exp t / (1 + exp t) = sigmoid t := by
    rw [sigmoid_def, exp_neg]
    have := (exp_pos t).ne'
    field_simp
    ring
  exact slope ▸ inner.log positive

theorem nonneg_of_turn {h h' : ℝ → ℝ} {t : ℝ} (has : ∀ s, HasDerivAt h (h' s) s) (zero : h t = 0)
    (falls : ∀ s ≤ t, h' s ≤ 0) (grows : ∀ s, t ≤ s → 0 ≤ h' s) (s : ℝ) : 0 ≤ h s := by
  have continuous : Continuous h := continuous_iff_continuousAt.mpr fun s => (has s).continuousAt
  have derivative : deriv h = h' := funext fun s => (has s).deriv
  rw [← zero]
  rcases le_total s t with before | after
  · have antitone : AntitoneOn h (Set.Iic t) := by
      apply antitoneOn_of_deriv_nonpos (convex_Iic t) continuous.continuousOn
      · exact fun x _ => (has x).differentiableAt.differentiableWithinAt
      · intro x inside
        rw [derivative]
        rw [interior_Iic] at inside
        exact falls x (Set.mem_Iio.mp inside).le
    exact antitone before (Set.mem_Iic.mpr le_rfl) before
  · have monotone : MonotoneOn h (Set.Ici t) := by
      apply monotoneOn_of_deriv_nonneg (convex_Ici t) continuous.continuousOn
      · exact fun x _ => (has x).differentiableAt.differentiableWithinAt
      · intro x inside
        rw [derivative]
        rw [interior_Ici] at inside
        exact grows x (Set.mem_Ioi.mp inside).le
    exact monotone (Set.mem_Ici.mpr le_rfl) after after

theorem softplus_ge (t s : ℝ) : softplus t + sigmoid t * (s - t) ≤ softplus s := by
  have tangent : ∀ x, HasDerivAt (fun x => softplus x - softplus t - sigmoid t * (x - t)) (sigmoid x - sigmoid t) x := by
    intro x
    have line : HasDerivAt (fun x => sigmoid t * (x - t)) (sigmoid t) x := by
      simpa using ((hasDerivAt_id x).sub_const t).const_mul (sigmoid t)
    exact ((hasDerivAt_softplus x).sub_const _).sub line
  have above := nonneg_of_turn tangent (by simp) (fun x before => sub_nonpos.mpr (sigmoid_le before))
    (fun x after => sub_nonneg.mpr (sigmoid_le after)) s
  linarith

theorem sigmoid_slope_le (t : ℝ) : sigmoid t * (1 - sigmoid t) ≤ 1 / 4 := by
  nlinarith [sq_nonneg (sigmoid t - 1 / 2)]

theorem sigmoid_le_add {t s : ℝ} (le : t ≤ s) : sigmoid s ≤ sigmoid t + (s - t) / 4 := by
  have has : ∀ x, HasDerivAt (fun x => x / 4 - sigmoid x) (1 / 4 - sigmoid x * (1 - sigmoid x)) x :=
    fun x => ((hasDerivAt_id x).div_const 4).sub (hasDerivAt_sigmoid x)
  have grows : Monotone fun x => x / 4 - sigmoid x :=
    monotone_of_hasDerivAt_nonneg has fun x => sub_nonneg.mpr (sigmoid_slope_le x)
  have := grows le
  dsimp only at this
  linarith

theorem softplus_le (t s : ℝ) : softplus s ≤ softplus t + sigmoid t * (s - t) + (s - t) ^ 2 / 8 := by
  have parabola : ∀ x, HasDerivAt (fun x => softplus t + sigmoid t * (x - t) + (x - t) ^ 2 / 8 - softplus x)
      (sigmoid t + (x - t) / 4 - sigmoid x) x := by
    intro x
    have shift : HasDerivAt (fun x => x - t) 1 x := (hasDerivAt_id x).sub_const t
    have line : HasDerivAt (fun x => sigmoid t * (x - t)) (sigmoid t) x := by simpa using shift.const_mul (sigmoid t)
    have square : HasDerivAt (fun x => (x - t) ^ 2 / 8) ((x - t) / 4) x := by
      refine ((shift.pow 2).div_const 8).congr_deriv ?_
      ring
    exact ((line.const_add (softplus t)).add square).sub (hasDerivAt_softplus x)
  have above := nonneg_of_turn (t := t) parabola (by simp)
    (fun x before => by have := sigmoid_le_add before; linarith)
    (fun x after => by have := sigmoid_le_add after; linarith) s
  linarith

end Softplus

/-- The cross-entropy of a label and a score. -/
noncomputable def loss (label score : ℝ) : ℝ := softplus score - label * score

theorem log_sigmoid (t : ℝ) : log (sigmoid t) = t - softplus t := by
  have positive := add_pos one_pos (exp_pos t)
  rw [sigmoid_def, exp_neg, softplus]
  have quotient : (1 + (exp t)⁻¹)⁻¹ = exp t / (1 + exp t) := by
    have := (exp_pos t).ne'
    field_simp
    ring
  rw [quotient, log_div (exp_pos t).ne' positive.ne', log_exp]

theorem log_one_sub_sigmoid (t : ℝ) : log (1 - sigmoid t) = -softplus t := by
  have mirrored : softplus (-t) = softplus t - t := by
    have left := log_sigmoid t
    rw [sigmoid_def, log_inv] at left
    change -softplus (-t) = _ at left
    linarith
  rw [← sigmoid_neg, log_sigmoid, mirrored]
  ring

theorem loss_eq (label score : ℝ) :
    loss label score = -(label * log (sigmoid score) + (1 - label) * log (1 - sigmoid score)) := by
  rw [loss, log_sigmoid, log_one_sub_sigmoid]
  ring

theorem loss_nonneg {label : ℝ} (natural : 0 ≤ label) (small : label ≤ 1) (score : ℝ) : 0 ≤ loss label score := by
  rw [loss_eq]
  have first : log (sigmoid score) ≤ 0 := log_nonpos (sigmoid_nonneg _) (sigmoid_le_one _)
  have second : log (1 - sigmoid score) ≤ 0 :=
    log_nonpos (sub_nonneg.mpr (sigmoid_le_one _)) (sub_le_self _ (sigmoid_nonneg _))
  have := mul_nonpos_of_nonneg_of_nonpos natural first
  have := mul_nonpos_of_nonneg_of_nonpos (sub_nonneg.mpr small) second
  linarith

section Linear
variable {C : Type} (S : Finset C)

structure Sample (C : Type) where
  features : C → ℝ
  label : ℝ

def Sample.score (s : Sample C) (w : C → ℝ) : ℝ := ∑ c ∈ S, s.features c * w c

noncomputable def total (samples : List (Sample C)) (w : C → ℝ) : ℝ :=
  (samples.map fun s => loss s.label (s.score S w)).sum

/-- In which direction the loss falls. -/
noncomputable def descent (samples : List (Sample C)) (w : C → ℝ) (c : C) : ℝ :=
  (samples.map fun s => (s.label - sigmoid (s.score S w)) * s.features c).sum

theorem score_sub (s : Sample C) (v w : C → ℝ) : s.score S v - s.score S w = ∑ c ∈ S, s.features c * (v c - w c) := by
  rw [Sample.score, Sample.score, ← Finset.sum_sub_distrib]
  exact Finset.sum_congr rfl fun c _ => by ring

theorem descent_cons (s : Sample C) (samples : List (Sample C)) (w d : C → ℝ) :
    ∑ c ∈ S, descent S (s :: samples) w c * d c =
      (s.label - sigmoid (s.score S w)) * ∑ c ∈ S, s.features c * d c + ∑ c ∈ S, descent S samples w c * d c := by
  rw [Finset.mul_sum, ← Finset.sum_add_distrib]
  refine Finset.sum_congr rfl fun c _ => ?_
  rw [descent, List.map_cons, List.sum_cons, descent]
  ring

theorem total_ge (samples : List (Sample C)) (w v : C → ℝ) :
    total S samples w - ∑ c ∈ S, descent S samples w c * (v c - w c) ≤ total S samples v := by
  induction samples with
  | nil => simp [total, descent]
  | cons s rest ih =>
    have one := softplus_ge (s.score S w) (s.score S v)
    have first : loss s.label (s.score S w) - (s.label - sigmoid (s.score S w)) * ∑ c ∈ S, s.features c * (v c - w c) ≤
        loss s.label (s.score S v) := by
      rw [← score_sub, loss, loss]
      linarith
    rw [descent_cons, total, total, List.map_cons, List.map_cons, List.sum_cons, List.sum_cons]
    rw [total, total] at ih
    linarith

theorem total_le (samples : List (Sample C)) (w v : C → ℝ) :
    total S samples v ≤ total S samples w - ∑ c ∈ S, descent S samples w c * (v c - w c) +
      (samples.map fun s => (s.score S v - s.score S w) ^ 2).sum / 8 := by
  induction samples with
  | nil => simp [total, descent]
  | cons s rest ih =>
    have one := softplus_le (s.score S w) (s.score S v)
    have first : loss s.label (s.score S v) ≤ loss s.label (s.score S w) -
        (s.label - sigmoid (s.score S w)) * ∑ c ∈ S, s.features c * (v c - w c) +
          (s.score S v - s.score S w) ^ 2 / 8 := by
      rw [← score_sub, loss, loss]
      linarith
    rw [descent_cons, total, total, List.map_cons, List.map_cons, List.map_cons, List.sum_cons, List.sum_cons,
      List.sum_cons]
    rw [total, total] at ih
    linarith

theorem total_step (samples : List (Sample C)) {w v : C → ℝ} {rate : ℝ}
    (step : ∀ c ∈ S, v c = w c + rate * descent S samples w c) :
    total S samples v ≤ total S samples w -
      rate * (1 - rate * (samples.map fun s => ∑ c ∈ S, s.features c ^ 2).sum / 8) * ∑ c ∈ S, descent S samples w c ^ 2 := by
  have moved : ∀ c ∈ S, v c - w c = rate * descent S samples w c := fun c member => by rw [step c member]; ring
  have along : ∑ c ∈ S, descent S samples w c * (v c - w c) = rate * ∑ c ∈ S, descent S samples w c ^ 2 := by
    rw [Finset.mul_sum]
    exact Finset.sum_congr rfl fun c member => by rw [moved c member]; ring
  have each : ∀ s : Sample C, (s.score S v - s.score S w) ^ 2 ≤
      rate ^ 2 * (∑ c ∈ S, descent S samples w c ^ 2) * ∑ c ∈ S, s.features c ^ 2 := by
    intro s
    have same : s.score S v - s.score S w = rate * ∑ c ∈ S, s.features c * descent S samples w c := by
      rw [score_sub, Finset.mul_sum]
      exact Finset.sum_congr rfl fun c member => by rw [moved c member]; ring
    rw [same, mul_pow, mul_assoc]
    apply mul_le_mul_of_nonneg_left _ (sq_nonneg rate)
    rw [mul_comm]
    exact Finset.sum_mul_sq_le_sq_mul_sq S _ _
  have squares : ∀ l : List (Sample C), (l.map fun s => (s.score S v - s.score S w) ^ 2).sum ≤
      rate ^ 2 * (∑ c ∈ S, descent S samples w c ^ 2) * (l.map fun s => ∑ c ∈ S, s.features c ^ 2).sum := by
    intro l
    rw [← List.sum_map_mul_left]
    exact List.sum_le_sum fun s _ => each s
  have bound := total_le S samples w v
  rw [along] at bound
  have := squares samples
  linarith

theorem sum_sq_le {α : Type} (l : List α) (f : α → ℝ) : (l.map f).sum ^ 2 ≤ l.length * (l.map fun a => f a ^ 2).sum := by
  have total : ∀ g : α → ℝ, (l.map g).sum = ∑ i : Fin l.length, g l[i] := by
    intro g
    exact (Fin.sum_univ_fun_getElem l g).symm
  have bound : (∑ i : Fin l.length, f l[i]) ^ 2 ≤ _ := sq_sum_le_card_mul_sum_sq
  rw [Finset.card_univ, Fintype.card_fin] at bound
  rw [total, total]
  exact bound

theorem descent_sq_le {samples : List (Sample C)} (probabilities : ∀ s ∈ samples, 0 ≤ s.label ∧ s.label ≤ 1) (w : C → ℝ) :
    ∑ c ∈ S, descent S samples w c ^ 2 ≤ samples.length * (samples.map fun s => ∑ c ∈ S, s.features c ^ 2).sum := by
  have residual : ∀ s ∈ samples, (s.label - sigmoid (s.score S w)) ^ 2 ≤ 1 := by
    intro s member
    obtain ⟨nonneg, small⟩ := probabilities s member
    have above := sigmoid_nonneg (s.score S w)
    have below := sigmoid_le_one (s.score S w)
    nlinarith
  have each : ∀ c, descent S samples w c ^ 2 ≤ samples.length * (samples.map fun s => s.features c ^ 2).sum := by
    intro c
    refine (sum_sq_le samples _).trans (mul_le_mul_of_nonneg_left ?_ (Nat.cast_nonneg _))
    apply List.sum_le_sum
    intro s member
    rw [mul_pow]
    exact mul_le_of_le_one_left (sq_nonneg _) (residual s member)
  have swapped : ∑ c ∈ S, (samples.map fun s => s.features c ^ 2).sum =
      (samples.map fun s => ∑ c ∈ S, s.features c ^ 2).sum := by
    clear each residual probabilities
    induction samples with
    | nil => simp
    | cons s rest ih => simp [Finset.sum_add_distrib, ih]
  refine (Finset.sum_le_sum fun c _ => each c).trans_eq ?_
  rw [← Finset.mul_sum, swapped]

end Linear
end Logistic

import Mathlib.Analysis.InnerProductSpace.Basic

/-
Descent in the directions of the losses at earlier points. A loss is only known
through its tangent: what all the steps lose against a fixed point is bounded by
the distance to that point, the lengths of the steps and how old the points are.
-/
namespace DelayedDescent
variable {E : Type*} [NormedAddCommGroup E] [InnerProductSpace ℝ E]

structure Steps (rate : ℝ) (direction : ℕ → E) (n : ℕ) (point : ℕ → E) : Prop where
  moves : ∀ t < n, point (t + 1) = point t + rate • direction t

variable {rate : ℝ} {direction point : ℕ → E} {n : ℕ}

theorem Steps.since (steps : Steps rate direction n point) {s t : ℕ} (before : s ≤ t) (known : t ≤ n) :
    point t = point s + rate • ∑ k ∈ Finset.Ico s t, direction k := by
  induction t, before using Nat.le_induction with
  | base => simp
  | succ t before ih =>
    rw [steps.moves t known, ih (Nat.le_of_succ_le known), Finset.sum_Ico_succ_top before, smul_add, add_assoc]

theorem Steps.distance (steps : Steps rate direction n point) (fixed : E) :
    2 * rate * ∑ t ∈ Finset.range n, inner ℝ (direction t) (fixed - point t) =
      ‖point 0 - fixed‖ ^ 2 - ‖point n - fixed‖ ^ 2 + rate ^ 2 * ∑ t ∈ Finset.range n, ‖direction t‖ ^ 2 := by
  induction n with
  | zero => simp
  | succ n ih =>
    have one : ‖point (n + 1) - fixed‖ ^ 2 = ‖point n - fixed‖ ^ 2 -
        2 * rate * inner ℝ (direction n) (fixed - point n) + rate ^ 2 * ‖direction n‖ ^ 2 := by
      have split : point (n + 1) - fixed = (point n - fixed) + rate • direction n := by
        rw [steps.moves n (Nat.lt_succ_self n)]
        abel
      have turned : inner ℝ (direction n) (fixed - point n) = -inner ℝ (point n - fixed) (direction n) := by
        rw [← neg_sub, inner_neg_right, real_inner_comm]
      rw [split, norm_add_sq_real, inner_smul_right, norm_smul, mul_pow, Real.norm_eq_abs, sq_abs, turned]
      ring
    have before := ih ⟨fun t less => steps.moves t (Nat.lt_succ_of_lt less)⟩
    rw [Finset.sum_range_succ, Finset.sum_range_succ, mul_add, mul_add, before, one]
    ring

/-- A step that is made of an old point is not far from the step that would be made now. -/
theorem Steps.delayed (steps : Steps rate direction n point) (nonneg : 0 ≤ rate) {length : ℝ} {delay s t : ℕ}
    (short : ∀ k < n, ‖direction k‖ ^ 2 ≤ length) (before : s ≤ t) (known : t < n) (recent : t ≤ s + delay) :
    inner ℝ (direction t) (point t - point s) ≤ rate * (delay * length) := by
  have each : ∀ k ∈ Finset.Ico s t, inner ℝ (direction t) (direction k) ≤ length := by
    intro k member
    have first := short t known
    have second := short k (Nat.lt_trans (Finset.mem_Ico.mp member).2 known)
    have := real_inner_le_norm (direction t) (direction k)
    nlinarith [sq_nonneg (‖direction t‖ - ‖direction k‖)]
  have positive : 0 ≤ length := le_trans (sq_nonneg _) (short t known)
  rw [steps.since before known.le, add_sub_cancel_left, inner_smul_right, inner_sum]
  apply mul_le_mul_of_nonneg_left _ nonneg
  refine (Finset.sum_le_card_nsmul _ _ length each).trans ?_
  rw [Nat.card_Ico, nsmul_eq_mul]
  apply mul_le_mul_of_nonneg_right _ positive
  exact_mod_cast Nat.sub_le_iff_le_add'.mpr recent

/-- The losses that are met at the points that the steps are made of, against those of a fixed point. -/
theorem Steps.regret (steps : Steps rate direction n point) (positive : 0 < rate) {readAt : ℕ → ℕ} {met other : ℕ → ℝ}
    {fixed : E} {length : ℝ} {delay : ℕ} (before : ∀ t < n, readAt t ≤ t) (recent : ∀ t < n, t ≤ readAt t + delay)
    (short : ∀ t < n, ‖direction t‖ ^ 2 ≤ length)
    (tangent : ∀ t < n, met t - inner ℝ (direction t) (fixed - point (readAt t)) ≤ other t) :
    ∑ t ∈ Finset.range n, met t ≤ ∑ t ∈ Finset.range n, other t +
      ‖point 0 - fixed‖ ^ 2 / (2 * rate) + rate * length * (delay + 1 / 2) * n := by
  have each : ∀ t ∈ Finset.range n, met t ≤
      other t + inner ℝ (direction t) (fixed - point t) + rate * (delay * length) := by
    intro t member
    have known := Finset.mem_range.mp member
    have old := steps.delayed positive.le short (before t known) known (recent t known)
    have split : fixed - point (readAt t) = (fixed - point t) + (point t - point (readAt t)) := by abel
    have line := tangent t known
    rw [split, inner_add_right] at line
    linarith
  have total := Finset.sum_le_sum each
  rw [Finset.sum_add_distrib, Finset.sum_add_distrib, Finset.sum_const, Finset.card_range, nsmul_eq_mul] at total
  have lengths : ∑ t ∈ Finset.range n, ‖direction t‖ ^ 2 ≤ n * length := by
    have := Finset.sum_le_card_nsmul (Finset.range n) (fun t => ‖direction t‖ ^ 2) length
      fun t member => short t (Finset.mem_range.mp member)
    rwa [Finset.card_range, nsmul_eq_mul] at this
  have moved := steps.distance fixed
  have directed : ∑ t ∈ Finset.range n, inner ℝ (direction t) (fixed - point t) ≤
      ‖point 0 - fixed‖ ^ 2 / (2 * rate) + rate * (n * length) / 2 := by
    have scaled : 2 * rate * (‖point 0 - fixed‖ ^ 2 / (2 * rate) + rate * (n * length) / 2) =
        ‖point 0 - fixed‖ ^ 2 + rate ^ 2 * (n * length) := by
      field_simp
    apply le_of_mul_le_mul_left _ (mul_pos two_pos positive)
    rw [scaled, moved]
    have := mul_le_mul_of_nonneg_left lengths (sq_nonneg rate)
    have := sq_nonneg ‖point n - fixed‖
    linarith
  linarith

end DelayedDescent

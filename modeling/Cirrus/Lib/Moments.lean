import Mathlib.Algebra.BigOperators.Group.List.Basic
import Mathlib.Algebra.Order.Field.Basic
import Mathlib.Tactic.FieldSimp
import Mathlib.Tactic.Ring
import Mathlib.Tactic.Positivity

/-
The sum of the squares, the sum and the number of some values. They add up over
any partition of the values, and the mean and the variance follow from them.
Nothing here mentions a particular program.
-/
universe u

structure Moments (F : Type u) where
  sumSq : F
  sum : F
  count : Nat

namespace Moments
variable {F : Type u}

@[ext] theorem ext' {m m' : Moments F} (sumSq : m.sumSq = m'.sumSq) (sum : m.sum = m'.sum) (count : m.count = m'.count) :
    m = m' := by
  cases m
  cases m'
  simp_all

section Sums
variable [Semiring F]

def zero : Moments F := ⟨0, 0, 0⟩

def add (m m' : Moments F) : Moments F := ⟨m.sumSq + m'.sumSq, m.sum + m'.sum, m.count + m'.count⟩

def one (x : F) : Moments F := ⟨x ^ 2, x, 1⟩

def of (l : List F) : Moments F := ⟨(l.map (· ^ 2)).sum, l.sum, l.length⟩

theorem of_nil : of ([] : List F) = zero := rfl

theorem of_append (l l' : List F) : of (l ++ l') = (of l).add (of l') := by
  unfold of add
  rw [List.map_append, List.sum_append, List.sum_append, List.length_append]

theorem of_singleton (x : F) : of [x] = one x := by
  unfold of one
  simp

theorem of_perm {l l' : List F} (same : l.Perm l') : of l = of l' := by
  unfold of
  rw [(same.map _).sum_eq, same.sum_eq, same.length_eq]

theorem zero_add (m : Moments F) : zero.add m = m := by
  unfold zero add
  ext <;> simp

end Sums

section Statistics
variable [Field F]

def meanSq (m : Moments F) : F := m.sumSq / (m.count : F)

def mean (m : Moments F) : F := m.sum / (m.count : F)

def variance (m : Moments F) : F := m.meanSq - m.mean ^ 2

theorem sum_sq_sub (l : List F) (a : F) :
    (l.map fun x => (x - a) ^ 2).sum = (of l).sumSq - 2 * a * (of l).sum + (of l).count * a ^ 2 := by
  induction l with
  | nil => simp [of]
  | cons x l ih =>
    have rest : (x - a) ^ 2 + ((of l).sumSq - 2 * a * (of l).sum + (of l).count * a ^ 2) =
        (of (x :: l)).sumSq - 2 * a * (of (x :: l)).sum + (of (x :: l)).count * a ^ 2 := by
      simp only [of, List.map_cons, List.sum_cons, List.length_cons, Nat.cast_add, Nat.cast_one]
      ring
    rw [List.map_cons, List.sum_cons, ih, rest]

theorem sum_map_sub_div (l : List F) (a b : F) :
    (l.map fun x => (x - a) / b).sum = ((of l).sum - (of l).count * a) / b := by
  induction l with
  | nil => simp [of]
  | cons x l ih =>
    rw [List.map_cons, List.sum_cons, ih]
    simp only [of, List.sum_cons, List.length_cons, Nat.cast_add, Nat.cast_one]
    ring

theorem sum_map_sq_div (l : List F) (a b : F) :
    (l.map fun x => ((x - a) / b) ^ 2).sum = (l.map fun x => (x - a) ^ 2).sum / b ^ 2 := by
  induction l with
  | nil => simp
  | cons x l ih =>
    rw [List.map_cons, List.sum_cons, ih, List.map_cons, List.sum_cons, div_pow, add_div]

variable [CharZero F]

theorem count_ne_zero {l : List F} (some_value : l ≠ []) : ((of l).count : F) ≠ 0 := by
  unfold of
  rw [Nat.cast_ne_zero]
  exact fun none => some_value (List.length_eq_zero_iff.mp none)

theorem variance_eq {l : List F} (some_value : l ≠ []) :
    (of l).variance = (l.map fun x => (x - (of l).mean) ^ 2).sum / (of l).count := by
  have nonzero := count_ne_zero some_value
  rw [sum_sq_sub]
  unfold variance meanSq mean
  field_simp
  ring

theorem standardized {l : List F} (some_value : l ≠ []) {root : F} (square : root * root = (of l).variance)
    (positive : (of l).variance ≠ 0) :
    (of (l.map fun x => (x - (of l).mean) / root)).mean = 0 ∧
      (of (l.map fun x => (x - (of l).mean) / root)).variance = 1 := by
  have nonzero := count_ne_zero some_value
  have length : (of (l.map fun x => (x - (of l).mean) / root)).count = (of l).count := List.length_map ..
  have centred : (of (l.map fun x => (x - (of l).mean) / root)).mean = 0 := by
    have sum : (of (l.map fun x => (x - (of l).mean) / root)).sum = 0 := by
      have total := sum_map_sub_div l (of l).mean root
      have balance : (of l).sum - (of l).count * (of l).mean = 0 := by
        unfold mean
        field_simp
        ring
      rw [balance, zero_div] at total
      exact total
    rw [mean, sum, zero_div]
  refine ⟨centred, ?_⟩
  have squares : (of (l.map fun x => (x - (of l).mean) / root)).sumSq =
      (l.map fun x => (x - (of l).mean) ^ 2).sum / root ^ 2 := by
    rw [← sum_map_sq_div]
    unfold of
    rw [List.map_map]
    rfl
  have distances : (l.map fun x => (x - (of l).mean) ^ 2).sum = (of l).variance * (of l).count := by
    rw [variance_eq some_value]
    field_simp
  unfold variance
  rw [centred, meanSq, squares, distances, length, pow_two root, square]
  field_simp
  ring

end Statistics

section Order
variable [Field F] [LinearOrder F] [IsStrictOrderedRing F]

/-- The Cauchy-Schwarz bound: the mean of the squares is at least the square of the mean. -/
theorem variance_nonneg (l : List F) : 0 ≤ (of l).variance := by
  by_cases none : l = []
  · rw [none]
    simp [of, variance, meanSq, mean]
  · rw [variance_eq none]
    apply div_nonneg
    · apply List.sum_nonneg
      intro y member
      obtain ⟨x, _, rfl⟩ := List.mem_map.mp member
      exact sq_nonneg _
    · exact Nat.cast_nonneg _

theorem mean_of_constant {l : List F} {c : F} (some_value : l ≠ []) (constant : ∀ x ∈ l, x = c) : (of l).mean = c := by
  have nonzero := count_ne_zero some_value
  have same : l = List.replicate l.length c := List.eq_replicate_iff.mpr ⟨rfl, constant⟩
  have sum : l.sum = l.length * c := by
    conv_lhs => rw [same]
    simp
  rw [mean, div_eq_iff nonzero]
  exact sum.trans (mul_comm _ _)

theorem variance_eq_zero_iff {l : List F} (some_value : l ≠ []) :
    (of l).variance = 0 ↔ ∀ x ∈ l, ∀ y ∈ l, x = y := by
  have nonneg : ∀ y ∈ l.map (fun x => (x - (of l).mean) ^ 2), 0 ≤ y := by
    intro y member
    obtain ⟨x, _, rfl⟩ := List.mem_map.mp member
    exact sq_nonneg _
  rw [variance_eq some_value, div_eq_zero_iff, or_iff_left (count_ne_zero some_value)]
  constructor
  · intro none
    have centre : ∀ x ∈ l, x = (of l).mean := by
      intro x member
      have zero := List.all_zero_of_le_zero_le_of_sum_eq_zero nonneg none (List.mem_map_of_mem member)
      simpa [sub_eq_zero] using zero
    exact fun x here y there => (centre x here).trans (centre y there).symm
  · intro constant
    apply List.sum_eq_zero
    intro y member
    obtain ⟨x, here, rfl⟩ := List.mem_map.mp member
    rw [mean_of_constant some_value fun y there => constant y there x here, sub_self]
    exact zero_pow two_ne_zero

end Order
end Moments

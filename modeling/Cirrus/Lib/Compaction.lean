import Mathlib.Data.List.Basic

/-
`std::remove_if` on an array of `n` cells: the cells that stay move to the
front in their order, and the cells behind them are left as they were. The
array is a function of the index; nothing here says what a cell is.
-/
namespace Compaction
variable {A : Type} (dead : A → Bool) (cells : Nat → A)

def kept (n : Nat) : List A := ((List.range n).map cells).filter fun a => !dead a

def removed (n : Nat) : Nat := ((List.range n).map cells).countP dead

def removeIf (n i : Nat) : A := ((kept dead cells n)[i]?).getD (cells i)

/-- The place a cell that stays moves to: the number of cells before it that stay. -/
def rank : Nat → Nat
  | 0 => 0
  | i + 1 => rank i + if dead (cells i) then 0 else 1

theorem kept_succ (n : Nat) :
    kept dead cells (n + 1) =
      kept dead cells n ++ if dead (cells n) then [] else [cells n] := by
  unfold kept
  rw [List.range_succ, List.map_append, List.filter_append]
  cases gone : dead (cells n) <;> simp [gone]

theorem kept_length (n : Nat) : (kept dead cells n).length = rank dead cells n := by
  induction n with
  | zero => rfl
  | succ n ih =>
    rw [kept_succ, List.length_append, ih, rank]
    split <;> rfl

theorem removed_add_rank (n : Nat) : removed dead cells n + rank dead cells n = n := by
  induction n with
  | zero => rfl
  | succ n ih =>
    have last : removed dead cells (n + 1) =
        removed dead cells n + if dead (cells n) then 1 else 0 := by
      unfold removed
      rw [List.range_succ, List.map_append, List.countP_append, List.map_singleton,
        List.countP_singleton]
    rw [last, rank]
    split <;> omega

theorem rank_mono {i j : Nat} (le : i ≤ j) : rank dead cells i ≤ rank dead cells j := by
  induction le with
  | refl => exact Nat.le_refl _
  | step le ih => exact Nat.le_trans ih (Nat.le_add_right _ _)

theorem rank_lt {i j : Nat} (alive : dead (cells i) = false) (lt : i < j) :
    rank dead cells i < rank dead cells j := by
  have next : rank dead cells (i + 1) = rank dead cells i + 1 := by simp [rank, alive]
  have mono : rank dead cells (i + 1) ≤ rank dead cells j := rank_mono dead cells lt
  omega

theorem rank_eq_self {i : Nat} (alive : ∀ j < i, dead (cells j) = false) :
    rank dead cells i = i := by
  induction i with
  | zero => rfl
  | succ i ih =>
    rw [rank, ih fun j lt => alive j (by omega), alive i (by omega)]
    rfl

theorem removeIf_rank {n i : Nat} (inside : i < n) (alive : dead (cells i) = false) :
    removeIf dead cells n (rank dead cells i) = cells i := by
  have place : (kept dead cells n)[rank dead cells i]? = some (cells i) := by
    induction n with
    | zero => omega
    | succ n ih =>
      rw [kept_succ]
      rcases Nat.lt_or_eq_of_le (Nat.le_of_lt_succ inside) with lt | rfl
      · have short : rank dead cells i < (kept dead cells n).length := by
          rw [kept_length]
          exact rank_lt dead cells alive lt
        rw [List.getElem?_append_left short, ih lt]
      · rw [← kept_length dead cells, alive]
        simp
  rw [removeIf, place, Option.getD_some]

theorem exists_of_lt_rank {n j : Nat} (front : j < rank dead cells n) :
    ∃ i < n, dead (cells i) = false ∧ rank dead cells i = j := by
  induction n with
  | zero => exact absurd front (Nat.not_lt_zero j)
  | succ n ih =>
    rcases Nat.lt_or_ge j (rank dead cells n) with lt | ge
    · obtain ⟨i, inside, found⟩ := ih lt
      exact ⟨i, Nat.lt_succ_of_lt inside, found⟩
    · rw [rank] at front
      cases alive : dead (cells n) with
      | true =>
        rw [if_pos alive] at front
        omega
      | false =>
        rw [if_neg (by simp [alive])] at front
        exact ⟨n, Nat.lt_succ_self n, alive, by omega⟩

theorem removeIf_tail {n i : Nat} (behind : rank dead cells n ≤ i) :
    removeIf dead cells n i = cells i := by
  rw [removeIf, List.getElem?_eq_none (by rw [kept_length]; exact behind), Option.getD_none]

end Compaction

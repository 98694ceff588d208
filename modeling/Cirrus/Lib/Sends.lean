import Cirrus.Lib.Codec

/- Programs that hand cells to a socket, each send of which takes some of the cells or fails. The
   results of the sends to come are given, so that what is proved of a run holds for all of them.
   Nothing here mentions a particular program. -/
namespace Sends
variable {B α β : Type}

inductive Outcome (α : Type)
  | returned (a : α)
  | failed (fault : Fault)
  /-- In a send that has no result yet. -/
  | sending
  deriving DecidableEq

structure Run (B α : Type) where
  taken : List B
  outcome : Outcome α
  deriving DecidableEq

/-- A result is -1 or the number of cells that the socket would take. The results that were not used
are there for the rest of the program. -/
def Sender (B α : Type) := List (Option Nat) → Run B (α × List (Option Nat))

instance : Monad (Sender B) where
  pure a := fun results => ⟨[], .returned (a, results)⟩
  bind d f := fun results =>
    match d results with
    | ⟨taken, .returned (a, rest)⟩ => ⟨taken ++ (f a rest).taken, (f a rest).outcome⟩
    | ⟨taken, .failed fault⟩ => ⟨taken, .failed fault⟩
    | ⟨taken, .sending⟩ => ⟨taken, .sending⟩

def fail (fault : Fault) : Sender B α := fun _ => ⟨[], .failed fault⟩

/-- A computation on the side, which sends nothing. -/
def compute (result : Except Fault α) : Sender B α := fun results =>
  match result with
  | .ok a => ⟨[], .returned (a, results)⟩
  | .error fault => ⟨[], .failed fault⟩

def send (cells : List B) : Sender B (Option Nat)
  | [] => ⟨[], .sending⟩
  | none :: rest => ⟨[], .returned (none, rest)⟩
  | some n :: rest => ⟨cells.take n, .returned (some (min n cells.length), rest)⟩

theorem bind_apply (d : Sender B α) (f : α → Sender B β) (results : List (Option Nat)) :
    (d >>= f) results = match d results with
      | ⟨taken, .returned (a, rest)⟩ => ⟨taken ++ (f a rest).taken, (f a rest).outcome⟩
      | ⟨taken, .failed fault⟩ => ⟨taken, .failed fault⟩
      | ⟨taken, .sending⟩ => ⟨taken, .sending⟩ := rfl

theorem bind_returned {d : Sender B α} {f : α → Sender B β} {results rest : List (Option Nat)} {taken : List B} {a : α}
    (first : d results = ⟨taken, .returned (a, rest)⟩) :
    (d >>= f) results = ⟨taken ++ (f a rest).taken, (f a rest).outcome⟩ := by
  rw [bind_apply, first]

theorem bind_sending {d : Sender B α} {f : α → Sender B β} {results : List (Option Nat)} {taken : List B}
    (first : d results = ⟨taken, .sending⟩) : (d >>= f) results = ⟨taken, .sending⟩ := by
  rw [bind_apply, first]

section Results
variable {len n : Nat} {results : List (Option Nat)}

def Completes (len : Nat) (results : List (Option Nat)) : Prop :=
  ∃ (counts : List Nat) (rest : List (Option Nat)), results = counts.map some ++ rest ∧ len ≤ counts.sum

def Breaks (len : Nat) (results : List (Option Nat)) : Prop :=
  ∃ (counts : List Nat) (rest : List (Option Nat)), results = counts.map some ++ none :: rest ∧ counts.sum < len

theorem completes_zero (results : List (Option Nat)) : Completes 0 results := ⟨[], results, rfl, Nat.zero_le _⟩

theorem not_breaks_zero (results : List (Option Nat)) : ¬ Breaks 0 results :=
  fun ⟨_, _, _, few⟩ => absurd few (Nat.not_lt_zero _)

theorem not_completes_nil (some_cell : 0 < len) : ¬ Completes len [] := by
  rintro ⟨counts, rest, split, enough⟩
  obtain ⟨none_counted, _⟩ := List.append_eq_nil_iff.mp split.symm
  rw [List.map_eq_nil_iff.mp none_counted, List.sum_nil] at enough
  omega

theorem not_breaks_nil : ¬ Breaks len [] := by
  rintro ⟨counts, rest, split, _⟩
  exact List.cons_ne_nil _ _ (List.append_eq_nil_iff.mp split.symm).2

theorem not_completes_none (some_cell : 0 < len) : ¬ Completes len (none :: results) := by
  rintro ⟨counts, rest, split, enough⟩
  cases counts with
  | nil => exact absurd enough (by rw [List.sum_nil]; omega)
  | cons count counts => cases split

theorem breaks_none (some_cell : 0 < len) : Breaks len (none :: results) := ⟨[], results, rfl, some_cell⟩

theorem completes_some : Completes len (some n :: results) ↔ Completes (len - n) results := by
  constructor
  · rintro ⟨counts, rest, split, enough⟩
    cases counts with
    | nil =>
      have zero : len - n = 0 := by
        rw [List.sum_nil] at enough
        omega
      rw [zero]
      exact completes_zero results
    | cons count counts =>
      obtain ⟨same, others⟩ := List.cons.inj split
      obtain rfl := Option.some.inj same
      rw [List.sum_cons] at enough
      exact ⟨counts, rest, others, by omega⟩
  · rintro ⟨counts, rest, split, enough⟩
    refine ⟨n :: counts, rest, by rw [split]; rfl, ?_⟩
    rw [List.sum_cons]
    omega

theorem breaks_some : Breaks len (some n :: results) ↔ Breaks (len - n) results := by
  constructor
  · rintro ⟨counts, rest, split, few⟩
    cases counts with
    | nil => cases split
    | cons count counts =>
      obtain ⟨same, others⟩ := List.cons.inj split
      obtain rfl := Option.some.inj same
      rw [List.sum_cons] at few
      exact ⟨counts, rest, others, by omega⟩
  · rintro ⟨counts, rest, split, few⟩
    refine ⟨n :: counts, rest, by rw [split]; rfl, ?_⟩
    rw [List.sum_cons]
    omega

theorem Completes.not_breaks (completes : Completes len results) : ¬ Breaks len results := by
  intro breaks
  induction results generalizing len with
  | nil => exact not_breaks_nil breaks
  | cons result results ih =>
    rcases Nat.eq_zero_or_pos len with rfl | some_cell
    · exact not_breaks_zero _ breaks
    · cases result with
      | none => exact not_completes_none some_cell completes
      | some n => exact ih (completes_some.mp completes) (breaks_some.mp breaks)

end Results
end Sends

import Cirrus.Lib.Dict

/-!
The values that the Lambdas work on: rows of columns and values, dictionaries
whose integer keys become texts on their way through JSON, and exceptions.
-/
namespace LambdaData
variable {F : Type}

abbrev Rows (K F : Type) := List (List (K × F))

abbrev Text := List Char

def str (idx : Int) : Text :=
  if idx < 0 then '-' :: Nat.toDigits 10 idx.natAbs else Nat.toDigits 10 idx.natAbs

theorem toDigits_injective {n m : Nat} (same : Nat.toDigits 10 n = Nat.toDigits 10 m) : n = m := by
  rw [← Nat.ofDigitChars_ten_toDigits (n := n), same, Nat.ofDigitChars_ten_toDigits]

theorem minus_not_digit (n : Nat) : '-' ∉ Nat.toDigits 10 n := by
  intro member
  have digit := Nat.isDigit_of_mem_toDigits (by decide) (by decide) member
  exact absurd digit (by decide)

theorem str_injective : Function.Injective str := by
  intro a b same
  have absolute : a.natAbs = b.natAbs ∧ (a < 0 ↔ b < 0) := by
    unfold str at same
    split at same <;> split at same
    next first second => exact ⟨toDigits_injective (List.cons.inj same).2, iff_of_true first second⟩
    next first second => exact (minus_not_digit b.natAbs (same ▸ List.mem_cons_self)).elim
    next first second => exact (minus_not_digit a.natAbs (same ▸ List.mem_cons_self)).elim
    next first second => exact ⟨toDigits_injective same, iff_of_false first second⟩
  omega

inductive Raised
  | keyError
  | typeError
  | attributeError
  | noSuchKey
  | responseError
  | valueError
  | zeroDivisionError
  deriving DecidableEq

def lookup {K V : Type} [DecidableEq K] (d : Dict K V) (k : K) : Except Raised V :=
  match d.get? k with
  | some x => .ok x
  | none => .error .keyError

theorem lookup_eq_ok {K V : Type} [DecidableEq K] {d : Dict K V} {k : K} {x : V} :
    lookup d k = .ok x ↔ d.get? k = some x := by
  unfold lookup
  cases d.get? k with
  | none => exact ⟨nofun, nofun⟩
  | some y => exact ⟨fun same => congrArg some (Except.ok.inj same), fun same => congrArg Except.ok (Option.some.inj same)⟩

/-- One Lambda for each object. What a Lambda has done before an exception stays. -/
def launchThreads {C S : Type} (lambda : S → C → S × Except Raised Unit) (objects : List C) (s : S) : S :=
  objects.foldl (fun s chunk => (lambda s chunk).1) s

theorem launchThreads_gives {C S : Type} {lambda : S → C → S × Except Raised Unit} {objects : List C}
    {P : List C → S → Prop} (each : ∀ seen chunk, seen ++ [chunk] <+: objects → ∀ s, P seen s →
      P (seen ++ [chunk]) (lambda s chunk).1) {s : S} (before : P [] s) : P objects (launchThreads lambda objects s) := by
  have tail : ∀ rest seen s, seen ++ rest = objects → P seen s → P objects (launchThreads lambda rest s) := by
    intro rest
    induction rest with
    | nil =>
      intro seen s whole here
      rw [List.append_nil] at whole
      exact whole ▸ here
    | cons chunk rest ih =>
      intro seen s whole here
      have whole' : (seen ++ [chunk]) ++ rest = objects := by
        rw [List.append_assoc]
        exact whole
      exact ih _ _ whole' (each seen chunk ⟨rest, whole'⟩ s here)
  exact tail objects [] s rfl before

theorem launchThreads_keeps {C S : Type} {lambda : S → C → S × Except Raised Unit} {P : S → Prop}
    (each : ∀ s chunk, P s → P (lambda s chunk).1) (objects : List C) {s : S} (before : P s) :
    P (launchThreads lambda objects s) :=
  launchThreads_gives (P := fun _ s => P s) (fun _ chunk _ s here => each s chunk here) before

end LambdaData

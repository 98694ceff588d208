import Mathlib.Data.List.TakeWhile
import Mathlib.Algebra.Field.Rat

/-
Words and numbers at the front of a text, and the formatted extractions of a
stream: each skips white space, stops where its value ends, and marks the stream
where there is none or where it does not fit. Nothing here mentions a particular
program.
-/
namespace Scan
variable {T : Type}

def isspace (c : Char) : Bool := c = ' ' || c = '\t' || c = '\n' || c = '\x0b' || c = '\x0c' || c = '\r'

theorem not_digit_of_space {c : Char} (space : isspace c) : c.isDigit = false := by
  simp only [isspace, Bool.or_eq_true, decide_eq_true_eq] at space
  rcases space with ((((rfl | rfl) | rfl) | rfl) | rfl) | rfl <;> rfl

theorem not_space_of_digit {c : Char} (digit : c.isDigit) : isspace c = false := by
  by_contra space
  have other := not_digit_of_space (by simpa using space)
  rw [digit] at other
  cases other

section Spans
variable {p : Char → Bool} {token rest : List Char}

theorem dropWhile_stopped (stops : ∀ c ∈ rest.head?, p c = false) : rest.dropWhile p = rest := by
  cases rest with
  | nil => rfl
  | cons c rest => exact List.dropWhile_cons_of_neg (by simp [stops c rfl])

theorem takeWhile_stopped (stops : ∀ c ∈ rest.head?, p c = false) : rest.takeWhile p = [] := by
  cases rest with
  | nil => rfl
  | cons c rest => exact List.takeWhile_cons_of_neg (by simp [stops c rfl])

theorem dropWhile_token (all : ∀ c ∈ token, p c) (stops : ∀ c ∈ rest.head?, p c = false) :
    (token ++ rest).dropWhile p = rest := by
  rw [List.dropWhile_append_of_pos all, dropWhile_stopped stops]

theorem takeWhile_token (all : ∀ c ∈ token, p c) (stops : ∀ c ∈ rest.head?, p c = false) :
    (token ++ rest).takeWhile p = token := by
  rw [List.takeWhile_append_of_pos all, takeWhile_stopped stops, List.append_nil]

end Spans

section Numbers

def sign : List Char → Bool × List Char
  | '-' :: rest => (true, rest)
  | '+' :: rest => (false, rest)
  | rest => (false, rest)

def number (digits : List Char) : Nat := Nat.ofDigitChars 10 digits 0

def integer (text : List Char) : Option Int × List Char :=
  let (minus, rest) := sign text
  let digits := rest.takeWhile Char.isDigit
  (if digits = [] then none else some (if minus then -(number digits : Int) else number digits),
    rest.dropWhile Char.isDigit)

def fraction : List Char → List Char × List Char
  | '.' :: rest => (rest.takeWhile Char.isDigit, rest.dropWhile Char.isDigit)
  | rest => ([], rest)

/-- An exponent, which must have a digit if its letter is there. -/
def exponent : List Char → Option Int × List Char
  | 'e' :: rest | 'E' :: rest => integer rest
  | rest => (some 0, rest)

def decimal (text : List Char) : Option ℚ × List Char :=
  let (minus, rest) := sign text
  let whole := rest.takeWhile Char.isDigit
  let (part, rest) := fraction (rest.dropWhile Char.isDigit)
  if whole ++ part = [] then (none, rest)
  else
    let (power, rest) := exponent rest
    let size : ℚ := number (whole ++ part) / 10 ^ part.length
    (power.map fun power => (if minus then -size else size) * 10 ^ power, rest)

end Numbers

section Streams

structure Stream where
  rest : List Char
  fail : Bool := false
  deriving DecidableEq

/-- An extraction, which keeps the old value where nothing is left. -/
def extract (parse : List Char → T × Stream) (iss : Stream) (old : T) : T × Stream :=
  if iss.fail then (old, iss)
  else
    match iss.rest.dropWhile isspace with
    | [] => (old, ⟨[], true⟩)
    | c :: rest => parse (c :: rest)

def word : Stream → List Char → List Char × Stream :=
  extract fun text => (text.takeWhile (!isspace ·), ⟨text.dropWhile (!isspace ·), false⟩)

/-- An unsigned number of 64 bits. One with a minus sign wraps around. -/
def uint64 : Stream → UInt64 → UInt64 × Stream :=
  extract fun text =>
    match integer text with
    | (none, rest) => (0, ⟨rest, true⟩)
    | (some n, rest) =>
      if n.natAbs < 2 ^ 64 then (UInt64.ofInt n, ⟨rest, false⟩) else (UInt64.ofInt (-1), ⟨rest, true⟩)

def closest (n : Int) : Int32 := Int32.ofInt (max (-2 ^ 31) (min n (2 ^ 31 - 1)))

def int32 : Stream → Int32 → Int32 × Stream :=
  extract fun text =>
    match integer text with
    | (none, rest) => (0, ⟨rest, true⟩)
    | (some n, rest) => (closest n, ⟨rest, ¬ (-2 ^ 31 ≤ n ∧ n < 2 ^ 31)⟩)

def bool : Stream → Bool → Bool × Stream :=
  extract fun text =>
    match integer text with
    | (none, rest) => (false, ⟨rest, true⟩)
    | (some n, rest) => (n ≠ 0, ⟨rest, ¬ (n = 0 ∨ n = 1)⟩)

/-- The doubles, as the rationals they are: the one nearest to a number, if it is not too large. -/
structure Doubles where
  nearest : ℚ → Option ℚ
  greatest : ℚ

def double (d : Doubles) : Stream → ℚ → ℚ × Stream :=
  extract fun text =>
    match decimal text with
    | (none, rest) => (0, ⟨rest, true⟩)
    | (some q, rest) =>
      match d.nearest q with
      | some v => (v, ⟨rest, false⟩)
      | none => (if q < 0 then -d.greatest else d.greatest, ⟨rest, true⟩)

end Streams

section Printed
variable {digits whole part rest : List Char}

theorem toDigits_digits (n : Nat) : ∀ c ∈ Nat.toDigits 10 n, c.isDigit := fun _ member =>
  Nat.isDigit_of_mem_toDigits (by decide) (by decide) member

theorem number_toDigits (n : Nat) : number (Nat.toDigits 10 n) = n := Nat.ofDigitChars_ten_toDigits

theorem number_append (whole part : List Char) : number (whole ++ part) = number whole * 10 ^ part.length + number part := by
  unfold number
  rw [Nat.ofDigitChars_append, Nat.ofDigitChars_eq_ofDigitChars_zero, Nat.mul_comm]

def padded (width n : Nat) : List Char := (Nat.toDigits 10 n).leftpad width '0'

theorem padded_digits (width n : Nat) : ∀ c ∈ padded width n, c.isDigit := by
  intro c member
  rcases List.mem_append.mp member with zero | digit
  · rw [List.eq_of_mem_replicate zero]
    rfl
  · exact toDigits_digits n c digit

theorem number_padded (width n : Nat) : number (padded width n) = n := by
  unfold padded List.leftpad number
  rw [Nat.ofDigitChars_append, Nat.ofDigitChars_replicate_zero, Nat.mul_zero, Nat.ofDigitChars_ten_toDigits]

theorem padded_length {width n : Nat} (some_width : 0 < width) (small : n < 10 ^ width) : (padded width n).length = width := by
  have short := (Nat.length_toDigits_le_iff (by decide) some_width).mpr small
  unfold padded
  rw [List.length_leftpad]
  omega

theorem sign_digits (some_digits : digits ≠ []) (all : ∀ c ∈ digits, c.isDigit) (rest : List Char) :
    sign (digits ++ rest) = (false, digits ++ rest) := by
  obtain ⟨c, tail, rfl⟩ := List.exists_cons_of_ne_nil some_digits
  have digit := all c List.mem_cons_self
  unfold sign
  split
  next minus =>
    rw [(List.cons.inj minus).1] at digit
    cases digit
  next plus =>
    rw [(List.cons.inj plus).1] at digit
    cases digit
  next => rfl

theorem integer_digits (some_digits : digits ≠ []) (all : ∀ c ∈ digits, c.isDigit)
    (stops : ∀ c ∈ rest.head?, c.isDigit = false) : integer (digits ++ rest) = (some (number digits : Int), rest) := by
  unfold integer
  rw [sign_digits some_digits all]
  simp only [takeWhile_token all stops, dropWhile_token all stops, if_neg some_digits]
  rfl

theorem integer_minus (some_digits : digits ≠ []) (all : ∀ c ∈ digits, c.isDigit)
    (stops : ∀ c ∈ rest.head?, c.isDigit = false) :
    integer ('-' :: (digits ++ rest)) = (some (-(number digits : Int)), rest) := by
  unfold integer sign
  simp only [takeWhile_token all stops, dropWhile_token all stops, if_neg some_digits]
  rfl

theorem decimal_digits (minus : Bool) (some_whole : whole ≠ []) (digits : ∀ c ∈ whole, c.isDigit)
    (digits' : ∀ c ∈ part, c.isDigit) (stops : ∀ c ∈ rest.head?, isspace c) :
    decimal ((if minus then ['-'] else []) ++ (whole ++ '.' :: (part ++ rest))) =
      (some ((if minus then -1 else 1) * ((number (whole ++ part) : ℚ) / 10 ^ part.length)), rest) := by
  have other : ∀ c ∈ rest.head?, c.isDigit = false := fun c head => not_digit_of_space (stops c head)
  have signed : sign ((if minus then ['-'] else []) ++ (whole ++ '.' :: (part ++ rest))) =
      (minus, whole ++ '.' :: (part ++ rest)) := by
    cases minus with
    | false => exact sign_digits some_whole digits _
    | true => rfl
  have power : exponent rest = (some 0, rest) := by
    unfold exponent
    split
    next => simp [isspace] at stops
    next => simp [isspace] at stops
    next => rfl
  unfold decimal
  rw [signed]
  simp only [takeWhile_token digits (by simp : ∀ c ∈ ('.' :: (part ++ rest)).head?, c.isDigit = false),
    dropWhile_token digits (by simp : ∀ c ∈ ('.' :: (part ++ rest)).head?, c.isDigit = false), fraction,
    takeWhile_token digits' other, dropWhile_token digits' other, List.append_eq_nil_iff, some_whole, false_and, if_false,
    power, Option.map_some]
  cases minus with
  | false => simp
  | true => simp

end Printed

end Scan

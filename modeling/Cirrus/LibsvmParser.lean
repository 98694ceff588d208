import Cirrus.Lib.Scan
import Cirrus.SparseLRModel
import Mathlib.Data.List.Infix

/-!
The parser of `S3IteratorLibsvm`. What is left of the text stands for the index
into it, and the end of the text for the null character that is there.
-/
namespace S3IteratorLibsvm
open SparseLR Scan
variable {F T : Type}

/-- A space that does not end the line. -/
def blank (c : Char) : Bool := c ≠ '\n' && isspace c

def inDecimal (c : Char) : Bool := c.isDigit || c = '.'

/-- What `sscanf` stores for a text that begins with a digit, where it does not
return `EOF`, and the conversion of a label. -/
structure Sscanf (F : Type) where
  int : List Char → Int32
  unsigned : List Char → UInt64
  feature : List Char → F
  ofInt : Int32 → F

/-- What ends `buildDatasetLibsvm` early: it returns `false`, or something is thrown inside. -/
inductive Stop
  | cut
  | thrown (what : String)
  deriving DecidableEq

abbrev Sample (F : Type) := List (Int32 × F) × F

/-- `data[index]` -/
def peek (data : List Char) : Char := data.headD '\x00'

def readNum (accepts : Char → Bool) (sscanf : List Char → T) (data : List Char) : Except Stop (T × List Char) :=
  if (peek data).isDigit then .ok (sscanf (data.takeWhile accepts), data.dropWhile accepts)
  else .error (.thrown "Error in the dataset")

theorem length_dropWhile_le (p : Char → Bool) (data : List Char) : (data.dropWhile p).length ≤ data.length :=
  (List.dropWhile_suffix p).length_le

theorem readNum_shorter {accepts : Char → Bool} {sscanf : List Char → T} {data rest : List Char} {value : T}
    (accepted : ∀ c, c.isDigit → accepts c) (read : readNum accepts sscanf data = .ok (value, rest)) :
    rest.length < data.length := by
  unfold readNum at read
  split at read
  next digit =>
    cases data with
    | nil => simp [peek] at digit
    | cons c tail =>
      have dropped : (c :: tail).dropWhile accepts = tail.dropWhile accepts :=
        List.dropWhile_cons_of_pos (accepted c digit)
      cases read
      rw [dropped, List.length_cons]
      exact Nat.lt_succ_of_le (length_dropWhile_le accepts tail)
  next => cases read

theorem inDecimal_of_digit (c : Char) (digit : c.isDigit) : inDecimal c := by simp [inDecimal, digit]

def readPairs (sscanf : Sscanf F) (data : List Char) : Except Stop (List (Int32 × F) × List Char) :=
  if (peek (data.dropWhile blank)).isDigit then
    match _ : readNum Char.isDigit sscanf.unsigned (data.dropWhile blank) with
    | .error stop => .error stop
    | .ok (ind, ':' :: next) =>
      match _ : readNum inDecimal sscanf.feature next with
      | .error stop => .error stop
      | .ok (value, rest) => do
        let (pairs, rest) ← readPairs sscanf rest
        pure ((ind.toUInt32.toInt32, value) :: pairs, rest)
    | .ok _ => .error .cut
  else if peek (data.dropWhile blank) = '\n' then .ok ([], data.dropWhile blank)
  else if peek (data.dropWhile blank) = '\x00' then .error .cut
  else .error (.thrown "Error parsing while reading pairs")
termination_by data.length
decreasing_by
  have index := readNum_shorter (fun _ digit => digit) (by assumption)
  have value := readNum_shorter inDecimal_of_digit (by assumption)
  have gap := length_dropWhile_le blank data
  rw [List.length_cons] at index
  omega

/-- One round of the loop over the samples. -/
def readSample (sscanf : Sscanf F) (data : List Char) : Except Stop (Sample F × List Char) :=
  if (peek (data.dropWhile isspace)).isDigit then do
    let (label, rest) ← readNum Char.isDigit sscanf.int (data.dropWhile isspace)
    let (pairs, rest) ← readPairs sscanf rest
    pure ((pairs, sscanf.ofInt label), rest)
  else if peek (data.dropWhile isspace) = '\x00' then .error .cut
  else .error (.thrown "Expecting a digit here")

def readSamples (sscanf : Sscanf F) : Nat → List Char → Except Stop (List (Sample F) × List Char)
  | 0, data => pure ([], data)
  | n + 1, data => do
    let (sample, rest) ← readSample sscanf data
    let (samples, rest) ← readSamples sscanf n rest
    pure (sample :: samples, rest)

theorem readPairs_rest {sscanf : Sscanf F} {data rest : List Char} {pairs : List (Int32 × F)}
    (read : readPairs sscanf data = .ok (pairs, rest)) : rest.length ≤ data.length := by
  fun_induction readPairs sscanf data generalizing pairs rest with
  | case3 data digit ind next found value after read_value ih =>
    cases more : readPairs sscanf after with
    | error stop =>
      rw [more] at read
      cases read
    | ok result =>
      rw [more] at read
      cases read
      have index := readNum_shorter (fun _ digit => digit) found
      have value := readNum_shorter inDecimal_of_digit read_value
      have gap := length_dropWhile_le blank data
      have later := ih more
      rw [List.length_cons] at index
      omega
  | case5 data =>
    cases read
    exact length_dropWhile_le blank data
  | _ => cases read

theorem readSample_shorter {sscanf : Sscanf F} {data rest : List Char} {sample : Sample F}
    (read : readSample sscanf data = .ok (sample, rest)) : rest.length < data.length := by
  unfold readSample at read
  split at read
  next =>
    cases label : readNum Char.isDigit sscanf.int (data.dropWhile isspace) with
    | error stop =>
      rw [label] at read
      cases read
    | ok first =>
      cases pairs : readPairs sscanf first.2 with
      | error stop =>
        simp only [label, pairs, bind, Except.bind] at read
        cases read
      | ok result =>
        simp only [label, pairs, bind, Except.bind] at read
        cases read
        have shorter := readNum_shorter (fun _ digit => digit) label
        have later := readPairs_rest pairs
        have spaces := length_dropWhile_le isspace data
        omega
  next =>
    split at read <;> cases read

theorem readSamples_shorter {sscanf : Sscanf F} {n : Nat} {data rest : List Char} {samples : List (Sample F)}
    (read : readSamples sscanf n data = .ok (samples, rest)) : rest.length + n ≤ data.length := by
  induction n generalizing data samples with
  | zero =>
    cases read
    exact Nat.le_refl _
  | succ n ih =>
    unfold readSamples at read
    cases first : readSample sscanf data with
    | error stop =>
      rw [first] at read
      cases read
    | ok one =>
      cases more : readSamples sscanf n one.2 with
      | error stop =>
        simp only [first, more, bind, Except.bind] at read
        cases read
      | ok others =>
        simp only [first, more, bind, Except.bind] at read
        cases read
        have shorter := readSample_shorter first
        have later := ih more
        omega

structure Parser (F : Type) where
  sscanf : Sscanf F
  minibatchRows : UInt64
  positive : 0 < minibatchRows

def dataset (samples : List (Sample F)) : SparseDataset F := ⟨samples.map Prod.fst, samples.map Prod.snd⟩

namespace Parser
variable (p : Parser F)

def rows : Nat := p.minibatchRows.toNat

theorem rows_pos : 0 < p.rows := UInt64.lt_iff_toNat_lt.mp p.positive

/-- A minibatch and what is left, or nothing where `false` is returned. There is room for its rows. -/
def buildDatasetLibsvm (data : List Char) : Except Fault (Option (SparseDataset F × List Char)) :=
  match readSamples p.sscanf p.rows data with
  | .ok (samples, rest) => .ok (some (dataset samples, rest))
  | .error .cut => .ok none
  | .error (.thrown _) => .error (.exception "Error parsing")

theorem buildDatasetLibsvm_shorter {data rest : List Char} {minibatch : SparseDataset F}
    (built : p.buildDatasetLibsvm data = .ok (some (minibatch, rest))) : rest.length < data.length := by
  have positive := p.rows_pos
  unfold buildDatasetLibsvm at built
  split at built
  next samples _ read =>
    cases built
    have := readSamples_shorter read
    omega
  next => cases built
  next => cases built

def readUntilNewline : List Char → Except Fault (List Char)
  | [] => .error (.exception "Error parsing: *index >= data.size()")
  | c :: rest => if c = '\n' then .ok rest else readUntilNewline rest

/-- The loop that makes minibatches until the text ends. -/
def minibatches (data : List Char) : Except Fault (List (SparseDataset F)) :=
  match _ : p.buildDatasetLibsvm data with
  | .error fault => .error fault
  | .ok none => .ok []
  | .ok (some (minibatch, rest)) => do
    let result ← minibatches rest
    pure (minibatch :: result)
termination_by data.length
decreasing_by exact p.buildDatasetLibsvm_shorter (by assumption)

def parseObjLibsvm (data : List Char) : Except Fault (List (SparseDataset F)) := do
  let rest ← readUntilNewline data
  if rest = [] then .error (.exception "Error parsing: index >= data.size()") else p.minibatches rest

end Parser

end S3IteratorLibsvm

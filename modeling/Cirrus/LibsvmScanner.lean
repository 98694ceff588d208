import Cirrus.Lib.CString
import Cirrus.LibsvmRanges

/-!
The parser of `S3IteratorLibsvm` as it runs: an index into a string that is
written to, and loops that end only where the text makes them. It does what the
parser of `LibsvmParser` does with what is left of the text.
-/
namespace LibsvmScanner
open CString S3IteratorLibsvm SparseLR Scan
variable {F T A C : Type}

/-- The arguments `data` and `index`, which are references. -/
structure Text where
  data : List Char
  index : Nat

/-- An index out of the string, or a loop that goes on, besides what ends `buildDatasetLibsvm` early. -/
inductive Halt
  | stop (cause : Stop)
  | undefined
  | hung
  deriving DecidableEq

/-- What is returned or thrown, and what has become of the arguments. -/
def Scanner (A : Type) := Text → Except Halt A × Text

instance : Monad Scanner where
  pure a := fun s => (.ok a, s)
  bind act next := fun s =>
    match act s with
    | (.ok a, t) => next a t
    | (.error halt, t) => (.error halt, t)

def halt (cause : Halt) : Scanner A := fun s => (.error cause, s)

/-- A value that is there, unless an index is out of the string. -/
def defined (found : Text → Option A) : Scanner A := fun s =>
  match found s with
  | some a => (.ok a, s)
  | none => (.error .undefined, s)

def current : Scanner Char := defined fun s => charAt s.data s.index

def setIndex (index : Nat) : Scanner Unit := fun s => (.ok (), { s with index })

def write (index : Nat) (c : Char) : Scanner Unit := do
  let data ← defined fun s => store s.data index c
  fun s => (.ok (), { s with data })

def advance : Scanner Unit := fun s => (.ok (), { s with index := s.index + 1 })

def skip (p : Char → Bool) : Scanner Unit := do
  let index ← defined fun s => skipWhile p s.data s.index
  setIndex index

def ignoreSpaces : Scanner Bool := do
  skip isspace
  pure (← current).isDigit

def ignoreSpacesNotNewline : Scanner Bool := do
  skip blank
  pure (← current).isDigit

def readNum (accepts : Char → Bool) (sscanf : List Char → T) : Scanner T := do
  if (← current).isDigit then
    let indexFw ← defined fun s => skipWhile accepts s.data s.index
    let c ← defined fun s => charAt s.data indexFw
    write indexFw nul
    let text ← defined fun s => some (string s.data s.index)
    let result := sscanf text
    write indexFw c
    setIndex indexFw
    pure result
  else halt (.stop (.thrown "Error in the dataset"))

/-- The loop over the pairs of a sample, for so many turns at most. -/
def readPairs (sscanf : Sscanf F) : Nat → Scanner (List (Int32 × F))
  | 0 => halt .hung
  | turns + 1 => do
    if ← ignoreSpacesNotNewline then
      let ind ← readNum Char.isDigit sscanf.unsigned
      if (← current) = ':' then
        advance
        let value ← readNum inDecimal sscanf.feature
        let pairs ← readPairs sscanf turns
        pure ((ind.toUInt32.toInt32, value) :: pairs)
      else halt (.stop .cut)
    else
      let c ← current
      if c = '\n' then pure []
      else if c = '\x00' then halt (.stop .cut)
      else halt (.stop (.thrown "Error parsing while reading pairs"))

def readSample (sscanf : Sscanf F) (turns : Nat) : Scanner (Sample F) := do
  if ← ignoreSpaces then
    let label ← readNum Char.isDigit sscanf.int
    let pairs ← readPairs sscanf turns
    pure (pairs, sscanf.ofInt label)
  else if (← current) = '\x00' then halt (.stop .cut)
  else halt (.stop (.thrown "Expecting a digit here"))

def readSamples (sscanf : Sscanf F) (turns : Nat) : Nat → Scanner (List (Sample F))
  | 0 => pure []
  | n + 1 => do
    let sample ← readSample sscanf turns
    let samples ← readSamples sscanf turns n
    pure (sample :: samples)

/-- `max_size()` of `samples`, whose elements take 24 bytes. There is seldom memory for as many. -/
def maxRows : Nat := (2 ^ 63 - 1) / 24

/-- `samples.resize(minibatch_rows)` and `labels.resize(minibatch_rows)`, where there is room for so many rows. -/
def resize (room rows : Nat) : Scanner Unit :=
  if room < rows then halt (.stop (.thrown "std::bad_alloc")) else pure ()

/-- Whatever is thrown inside is thrown as another exception. -/
def buildDatasetLibsvm (p : Parser F) (room turns : Nat) : Scanner (Option (SparseDataset F)) := fun s =>
  match (resize room p.rows >>= fun _ => readSamples p.sscanf turns p.rows) s with
  | (.ok samples, t) => (.ok (some (dataset samples)), t)
  | (.error (.stop .cut), t) => (.ok none, t)
  | (.error (.stop (.thrown _)), t) => (.error (.stop (.thrown "Error parsing")), t)
  | (.error .undefined, t) => (.error .undefined, t)
  | (.error .hung, t) => (.error .hung, t)

def readUntilNewline : Nat → Scanner Unit
  | 0 => halt .hung
  | turns + 1 => do
    let s ← defined some
    if s.data.length ≤ s.index then halt (.stop (.thrown "Error parsing: *index >= data.size()"))
    else if (← current) = '\n' then advance
    else
      advance
      readUntilNewline turns

/-- The loop that makes minibatches, for so many turns at most. -/
def minibatches (p : Parser F) (room inner : Nat) : Nat → Scanner (List (SparseDataset F))
  | 0 => halt .hung
  | turns + 1 => do
    match ← buildDatasetLibsvm p room inner with
    | none => pure []
    | some minibatch =>
      let result ← minibatches p room inner turns
      pure (minibatch :: result)

def parse (p : Parser F) (room turns : Nat) : Scanner (List (SparseDataset F)) := do
  readUntilNewline turns
  let s ← defined some
  if s.data.length ≤ s.index then halt (.stop (.thrown "Error parsing: index >= data.size()"))
  else minibatches p room turns turns

def parseObjLibsvm (p : Parser F) (room turns : Nat) (data : List Char) : Except Halt (List (SparseDataset F)) × Text :=
  parse p room turns ⟨data, 0⟩

section Actions
variable {act : Scanner A} {next : A → Scanner C} {s t : Text} {a : A}

theorem bind_ok (done : act s = (.ok a, t)) : (act >>= next) s = next a t := by
  show (match act s with
    | (.ok a, t) => next a t
    | (.error halt, t) => (.error halt, t)) = _
  rw [done]

theorem bind_error {cause : Halt} (halted : act s = (.error cause, t)) : (act >>= next) s = (.error cause, t) := by
  show (match act s with
    | (.ok a, t) => next a t
    | (.error halt, t) => (.error halt, t)) = _
  rw [halted]

theorem defined_ok {found : Text → Option A} (there : found s = some a) : defined found s = (.ok a, s) := by
  rw [defined, there]

theorem write_ok {index : Nat} {c : Char} {data : List Char} (stored : store s.data index c = some data) :
    write index c s = (.ok (), { s with data }) := bind_ok (defined_ok stored)

variable (front rest : List Char)

theorem current_peek : current ⟨front ++ rest, front.length⟩ = (.ok (peek rest), ⟨front ++ rest, front.length⟩) :=
  defined_ok (charAt_split front rest)

theorem advance_ok (c : Char) :
    advance ⟨front ++ c :: rest, front.length⟩ = (.ok (), ⟨(front ++ [c]) ++ rest, (front ++ [c]).length⟩) := by
  rw [List.append_assoc, List.length_append]
  rfl

theorem skip_takeWhile {p : Char → Bool} (stops : p nul = false) : skip p ⟨front ++ rest, front.length⟩ =
    (.ok (), ⟨(front ++ rest.takeWhile p) ++ rest.dropWhile p, (front ++ rest.takeWhile p).length⟩) := by
  rw [List.append_assoc, List.takeWhile_append_dropWhile, List.length_append]
  exact bind_ok (defined_ok (skipWhile_split stops front rest))

theorem ignoreSpaces_ok : ignoreSpaces ⟨front ++ rest, front.length⟩ = (.ok (peek (rest.dropWhile isspace)).isDigit,
    ⟨(front ++ rest.takeWhile isspace) ++ rest.dropWhile isspace, (front ++ rest.takeWhile isspace).length⟩) :=
  (bind_ok (skip_takeWhile front rest rfl)).trans (bind_ok (current_peek _ _))

theorem ignoreSpacesNotNewline_ok : ignoreSpacesNotNewline ⟨front ++ rest, front.length⟩ =
    (.ok (peek (rest.dropWhile blank)).isDigit,
      ⟨(front ++ rest.takeWhile blank) ++ rest.dropWhile blank, (front ++ rest.takeWhile blank).length⟩) :=
  (bind_ok (skip_takeWhile front rest rfl)).trans (bind_ok (current_peek _ _))

end Actions

/-- An action does at `front.length` what is said of the rest: it goes on in the same string, or it stops and leaves the
string as it was. -/
inductive Ends (front rest : List Char) : Except Stop (A × List Char) → Except Halt A × Text → Prop
  | ok {a : A} {token later : List Char} (split : rest = token ++ later) :
      Ends front rest (.ok (a, later)) (.ok a, ⟨(front ++ token) ++ later, (front ++ token).length⟩)
  | stop (cause : Stop) (index : Nat) : Ends front rest (.error cause) (.error (.stop cause), ⟨front ++ rest, index⟩)

section Refinement
variable {front rest : List Char}

theorem Ends.behind {token later : List Char} {r : Except Stop (A × List Char)} {s : Except Halt A × Text}
    (ends : Ends (front ++ token) later r s) : Ends front (token ++ later) r s := by
  cases ends with
  | ok split =>
    subst split
    rw [List.append_assoc front, ← List.append_assoc token]
    exact .ok rfl
  | stop cause index =>
    rw [List.append_assoc]
    exact .stop cause index

theorem Ends.bind {r : Except Stop (A × List Char)} {f : A × List Char → Except Stop (C × List Char)} {act : Scanner A}
    {next : A → Scanner C} {s : Text} (first : Ends front rest r (act s))
    (later : ∀ a token more, rest = token ++ more →
      Ends (front ++ token) more (f (a, more)) (next a ⟨(front ++ token) ++ more, (front ++ token).length⟩)) :
    Ends front rest (r >>= f) ((act >>= next) s) := by
  cases done : act s with
  | mk result t =>
    rw [done] at first
    cases first with
    | @ok a token more split =>
      rw [bind_ok done, split]
      exact (later a token more split).behind
    | stop cause index =>
      rw [bind_error done]
      exact .stop cause index

theorem readNum_ends {accepts : Char → Bool} (stops : accepts nul = false) (sscanf : List Char → T) (front rest : List Char) :
    Ends front rest (S3IteratorLibsvm.readNum accepts sscanf rest)
      (readNum accepts sscanf ⟨front ++ rest, front.length⟩) := by
  rw [S3IteratorLibsvm.readNum, readNum, bind_ok (current_peek front rest)]
  split
  next digit =>
    have free : nul ∉ rest.takeWhile accepts := by
      intro member
      have holds := List.mem_takeWhile_imp member
      rw [stops] at holds
      cases holds
    have whole := List.takeWhile_append_dropWhile (p := accepts) (l := rest)
    obtain ⟨c, data, found, stored, text, repaired⟩ :
        ∃ c data, charAt (front ++ (rest.takeWhile accepts ++ rest.dropWhile accepts))
            (front.length + (rest.takeWhile accepts).length) = some c ∧
          store (front ++ (rest.takeWhile accepts ++ rest.dropWhile accepts))
            (front.length + (rest.takeWhile accepts).length) nul = some data ∧
          string data front.length = rest.takeWhile accepts ∧
          store data (front.length + (rest.takeWhile accepts).length) c =
            some (front ++ (rest.takeWhile accepts ++ rest.dropWhile accepts)) := store_behind free
    rw [whole] at found stored repaired
    have read : (defined fun s => some (string s.data s.index)) (⟨data, front.length⟩ : Text) =
        (.ok (rest.takeWhile accepts), ⟨data, front.length⟩) := defined_ok (congrArg some text)
    rw [bind_ok (defined_ok (skipWhile_split stops front rest)), bind_ok (defined_ok found), bind_ok (write_ok stored),
      bind_ok read, bind_ok (write_ok repaired)]
    have ends : Ends front rest (.ok (sscanf (rest.takeWhile accepts), rest.dropWhile accepts)) _ := .ok whole.symm
    rw [List.append_assoc, whole, List.length_append] at ends
    exact ends
  next => exact .stop _ _

theorem Ends.here (a : A) : Ends front rest (.ok (a, rest)) (.ok a, ⟨front ++ rest, front.length⟩) := by
  have ends : Ends front rest (.ok (a, rest)) (.ok a, ⟨(front ++ []) ++ rest, (front ++ []).length⟩) := .ok rfl
  rwa [List.append_nil] at ends

theorem Ends.skipped {p : Char → Bool} {r : Except Stop (A × List Char)} {s : Except Halt A × Text}
    (ends : Ends (front ++ rest.takeWhile p) (rest.dropWhile p) r s) : Ends front rest r s := by
  have whole := ends.behind
  rwa [List.takeWhile_append_dropWhile] at whole

theorem Ends.advanced {c : Char} {r : Except Stop (A × List Char)} {s : Except Halt A × Text}
    (ends : Ends (front ++ [c]) rest r s) : Ends front (c :: rest) r s := ends.behind

theorem readPairs_eq (sscanf : Sscanf F) (data : List Char) : S3IteratorLibsvm.readPairs sscanf data =
    if (peek (data.dropWhile blank)).isDigit then
      S3IteratorLibsvm.readNum Char.isDigit sscanf.unsigned (data.dropWhile blank) >>= fun (ind, rest) =>
        if peek rest = ':' then
          S3IteratorLibsvm.readNum inDecimal sscanf.feature rest.tail >>= fun (value, rest) =>
            S3IteratorLibsvm.readPairs sscanf rest >>= fun (pairs, rest) =>
              pure ((ind.toUInt32.toInt32, value) :: pairs, rest)
        else .error .cut
    else if peek (data.dropWhile blank) = '\n' then .ok ([], data.dropWhile blank)
    else if peek (data.dropWhile blank) = '\x00' then .error .cut
    else .error (.thrown "Error parsing while reading pairs") := by
  rw [S3IteratorLibsvm.readPairs]
  split
  next =>
    split
    next stop failed =>
      rw [failed]
      rfl
    next ind next found =>
      rw [Loops.bind_of_ok found]
      dsimp only
      rw [if_pos (show peek (':' :: next) = ':' from rfl), List.tail_cons]
      split
      next stop failed =>
        rw [failed]
        rfl
      next value rest read =>
        rw [read]
        rfl
    next read other found =>
      obtain ⟨ind, rest⟩ := read
      rw [found]
      have apart : peek rest ≠ ':' := by
        intro colon
        cases rest with
        | nil => cases colon
        | cons c rest =>
          obtain rfl : c = ':' := colon
          exact other ind rest rfl
      exact (if_neg apart).symm
  next => rfl

theorem readPairs_ends (sscanf : Sscanf F) {turns : Nat} {front rest : List Char} (enough : rest.length < turns) :
    Ends front rest (S3IteratorLibsvm.readPairs sscanf rest) (readPairs sscanf turns ⟨front ++ rest, front.length⟩) := by
  induction turns generalizing front rest with
  | zero => exact absurd enough (Nat.not_lt_zero _)
  | succ turns ih =>
    rw [readPairs_eq, readPairs, bind_ok (ignoreSpacesNotNewline_ok front rest)]
    apply Ends.skipped (p := blank)
    by_cases digit : (peek (rest.dropWhile blank)).isDigit = true
    · rw [if_pos digit, if_pos digit]
      refine (readNum_ends rfl _ _ _).bind fun ind token later split => ?_
      rw [bind_ok (current_peek _ _)]
      dsimp only
      by_cases colon : peek later = ':'
      · rw [if_pos colon, if_pos colon]
        cases later with
        | nil => cases colon
        | cons c later =>
          rw [bind_ok (advance_ok _ _ _), List.tail_cons]
          refine .advanced ((readNum_ends rfl _ _ _).bind fun value token' later' split' => ?_)
          refine (ih ?_).bind fun pairs _ _ _ => .here _
          have gap := length_dropWhile_le blank rest
          rw [split, List.length_append, List.length_cons, split', List.length_append] at gap
          omega
      · rw [if_neg colon, if_neg colon]
        exact .stop _ _
    · rw [if_neg digit, if_neg digit, bind_ok (current_peek _ _)]
      by_cases newline : peek (rest.dropWhile blank) = '\n'
      · rw [if_pos newline, if_pos newline]
        exact .here _
      · rw [if_neg newline, if_neg newline]
        by_cases ended : peek (rest.dropWhile blank) = '\x00'
        · rw [if_pos ended, if_pos ended]
          exact .stop _ _
        · rw [if_neg ended, if_neg ended]
          exact .stop _ _

theorem readSample_ends (sscanf : Sscanf F) {turns : Nat} (enough : rest.length < turns) :
    Ends front rest (S3IteratorLibsvm.readSample sscanf rest) (readSample sscanf turns ⟨front ++ rest, front.length⟩) := by
  rw [S3IteratorLibsvm.readSample, readSample, bind_ok (ignoreSpaces_ok front rest)]
  apply Ends.skipped (p := isspace)
  by_cases digit : (peek (rest.dropWhile isspace)).isDigit = true
  · rw [if_pos digit, if_pos digit]
    refine (readNum_ends rfl _ _ _).bind fun label token later split => ?_
    refine (readPairs_ends sscanf ?_).bind fun pairs _ _ _ => .here _
    have gap := length_dropWhile_le isspace rest
    rw [split, List.length_append] at gap
    omega
  · rw [if_neg digit, if_neg digit, bind_ok (current_peek _ _)]
    by_cases ended : peek (rest.dropWhile isspace) = '\x00'
    · rw [if_pos ended, if_pos ended]
      exact .stop _ _
    · rw [if_neg ended, if_neg ended]
      exact .stop _ _

theorem readSamples_ends (sscanf : Sscanf F) {turns : Nat} (n : Nat) {front rest : List Char} (enough : rest.length < turns) :
    Ends front rest (S3IteratorLibsvm.readSamples sscanf n rest)
      (readSamples sscanf turns n ⟨front ++ rest, front.length⟩) := by
  induction n generalizing front rest with
  | zero => exact .here _
  | succ n ih =>
    rw [S3IteratorLibsvm.readSamples, readSamples]
    refine (readSample_ends sscanf enough).bind fun sample token later split => ?_
    refine (ih ?_).bind fun samples _ _ _ => .here _
    rw [split, List.length_append] at enough
    omega

inductive Builds (front rest : List Char) :
    Except Fault (Option (SparseDataset F × List Char)) → Except Halt (Option (SparseDataset F)) × Text → Prop
  | complete {minibatch : SparseDataset F} {token later : List Char} (split : rest = token ++ later) :
      Builds front rest (.ok (some (minibatch, later)))
        (.ok (some minibatch), ⟨(front ++ token) ++ later, (front ++ token).length⟩)
  | cut (index : Nat) : Builds front rest (.ok none) (.ok none, ⟨front ++ rest, index⟩)
  | throws (what : String) (index : Nat) :
      Builds front rest (.error (.exception what)) (.error (.stop (.thrown what)), ⟨front ++ rest, index⟩)

theorem buildDatasetLibsvm_builds (p : Parser F) {room : Nat} (few : p.rows ≤ room) {turns : Nat} (front : List Char)
    (enough : rest.length < turns) :
    Builds front rest (p.buildDatasetLibsvm rest) (buildDatasetLibsvm p room turns ⟨front ++ rest, front.length⟩) := by
  have resized : resize room p.rows ⟨front ++ rest, front.length⟩ = (.ok (), ⟨front ++ rest, front.length⟩) := by
    rw [resize, if_neg (Nat.not_lt.mpr few)]
    rfl
  have ends : Ends front rest (S3IteratorLibsvm.readSamples p.sscanf p.rows rest) _ := readSamples_ends p.sscanf p.rows enough
  rw [Parser.buildDatasetLibsvm, buildDatasetLibsvm, bind_ok resized]
  generalize S3IteratorLibsvm.readSamples p.sscanf p.rows rest = r at ends ⊢
  generalize readSamples p.sscanf turns p.rows ⟨front ++ rest, front.length⟩ = s at ends ⊢
  cases ends with
  | ok split => exact .complete split
  | stop cause index =>
    cases cause with
    | cut => exact .cut index
    | thrown what => exact .throws _ index

def thrown : Fault → Halt
  | .assertion text => .stop (.thrown text)
  | .exception what => .stop (.thrown what)
  | .undefined => .undefined

def Agrees (text : List Char) (r : Except Fault A) (s : Except Halt A × Text) : Prop :=
  s.1 = r.mapError thrown ∧ s.2.data = text

theorem Agrees.map {text : List Char} {r : Except Fault A} {act : Scanner A} {s : Text} {f : A → C}
    (first : Agrees text r (act s)) : Agrees text (r >>= fun a => pure (f a)) ((act >>= fun a => pure (f a)) s) := by
  cases done : act s with
  | mk result t =>
    rw [done] at first
    obtain ⟨same, kept⟩ := first
    dsimp only at same
    subst same
    cases r with
    | ok a =>
      rw [bind_ok done]
      exact ⟨rfl, kept⟩
    | error fault =>
      rw [bind_error done]
      exact ⟨rfl, kept⟩

theorem minibatches_agrees (p : Parser F) {room : Nat} (few : p.rows ≤ room) {inner turns : Nat} {front rest : List Char}
    (enough : rest.length < turns) (enough' : rest.length < inner) :
    Agrees (front ++ rest) (p.minibatches rest) (minibatches p room inner turns ⟨front ++ rest, front.length⟩) := by
  induction turns generalizing front rest with
  | zero => exact absurd enough (Nat.not_lt_zero _)
  | succ turns ih =>
    have builds := buildDatasetLibsvm_builds p few front enough'
    generalize built : p.buildDatasetLibsvm rest = r at builds
    generalize done : buildDatasetLibsvm p room inner ⟨front ++ rest, front.length⟩ = s at builds
    cases builds with
    | @complete minibatch token later split =>
      have less := p.buildDatasetLibsvm_shorter built
      have later_agrees : Agrees ((front ++ token) ++ later) _ _ := ih (by omega) (by omega)
      rw [Parser.minibatches, built, minibatches, bind_ok done, split, ← List.append_assoc]
      exact later_agrees.map
    | cut index =>
      rw [Parser.minibatches, built, minibatches, bind_ok done]
      exact ⟨rfl, rfl⟩
    | throws what index =>
      rw [Parser.minibatches, built, minibatches, bind_error done]
      exact ⟨rfl, rfl⟩

theorem readUntilNewline_does {turns : Nat} (front rest : List Char) (enough : rest.length < turns) :
    (∃ token later, rest = token ++ later ∧ Parser.readUntilNewline rest = .ok later ∧
      readUntilNewline turns ⟨front ++ rest, front.length⟩ =
        (.ok (), ⟨(front ++ token) ++ later, (front ++ token).length⟩)) ∨
    (∃ what index, Parser.readUntilNewline rest = .error (.exception what) ∧
      readUntilNewline turns ⟨front ++ rest, front.length⟩ =
        (.error (.stop (.thrown what)), ⟨front ++ rest, index⟩)) := by
  obtain ⟨turns, rfl⟩ := Nat.exists_eq_succ_of_ne_zero (Nat.ne_zero_of_lt enough)
  induction rest generalizing front turns with
  | nil =>
    have past : (front ++ []).length ≤ front.length := by rw [List.append_nil]
    refine .inr ⟨_, front.length, rfl, ?_⟩
    rw [readUntilNewline, bind_ok (defined_ok rfl), if_pos past]
    rfl
  | cons c rest ih =>
    have inside : ¬ (front ++ c :: rest).length ≤ front.length := by
      rw [List.length_append, List.length_cons]
      omega
    rw [readUntilNewline, bind_ok (defined_ok rfl), if_neg inside, bind_ok (current_peek front (c :: rest)),
      Parser.readUntilNewline]
    by_cases newline : c = '\n'
    · refine .inl ⟨[c], rest, rfl, if_pos newline, ?_⟩
      rw [if_pos (show peek (c :: rest) = '\n' from newline)]
      exact advance_ok front rest c
    · rw [if_neg newline, if_neg (show ¬ peek (c :: rest) = '\n' from newline), bind_ok (advance_ok front rest c)]
      rw [List.length_cons] at enough
      obtain ⟨turns, rfl⟩ := Nat.exists_eq_succ_of_ne_zero (show turns ≠ 0 by omega)
      rcases ih (front ++ [c]) turns (by omega) with ⟨token, later, rfl, found, read⟩ | ⟨what, index, missing, read⟩
      · refine .inl ⟨c :: token, later, rfl, found, ?_⟩
        rwa [List.append_assoc front [c] token] at read
      · refine .inr ⟨what, index, missing, read.trans ?_⟩
        rw [List.append_assoc]
        rfl

/-- The parser does to an index into a text what is said of the text behind it. -/
theorem parse_agrees (p : Parser F) {room : Nat} (few : p.rows ≤ room) {turns : Nat} {text : List Char} (enough : text.length < turns) :
    Agrees text (p.parseObjLibsvm text) (parseObjLibsvm p room turns text) := by
  rcases readUntilNewline_does [] text enough with ⟨token, later, rfl, found, read⟩ | ⟨what, index, missing, read⟩
  · have start : readUntilNewline turns ⟨token ++ later, 0⟩ = (.ok (), ⟨token ++ later, token.length⟩) := read
    rw [Parser.parseObjLibsvm, Loops.bind_of_ok found, parseObjLibsvm, parse, bind_ok start, bind_ok (defined_ok rfl)]
    rw [List.length_append] at enough
    have past : (token ++ later).length ≤ token.length ↔ later = [] := by
      rw [List.length_append, ← List.length_eq_zero_iff]
      omega
    by_cases ended : later = []
    · rw [if_pos ended, if_pos (past.mpr ended)]
      exact ⟨rfl, rfl⟩
    · rw [if_neg ended, if_neg (mt past.mp ended)]
      exact minibatches_agrees p few (by omega) (by omega)
  · have start : readUntilNewline turns ⟨text, 0⟩ = (.error (.stop (.thrown what)), ⟨text, index⟩) := read
    rw [Parser.parseObjLibsvm, Loops.bind_of_error missing, parseObjLibsvm, parse, bind_error start]
    exact ⟨rfl, rfl⟩

end Refinement
end LibsvmScanner

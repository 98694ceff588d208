import Cirrus.LibsvmScanner
import Cirrus.LibsvmDeadlock

/-!
What comes out of a text of complete lines, as numbers, when `sscanf` reads the
numbers that it is given. The one way a cut of a file goes wrong is that the
last byte is a colon.
-/
namespace LibsvmScanner
open CString S3IteratorLibsvm SparseLR Scan
variable {F : Type}

section Numbers
variable [OfScientific F]

def IsDecimal (text : List Char) : Prop :=
  (peek text).isDigit ∧ (text.dropWhile Char.isDigit = [] ∨
    ∃ part, text.dropWhile Char.isDigit = '.' :: part ∧ ∀ c ∈ part, c.isDigit)

def decimalOf (text : List Char) : F :=
  let whole := text.takeWhile Char.isDigit
  let part := (fraction (text.dropWhile Char.isDigit)).1
  OfScientific.ofScientific (number (whole ++ part)) true part.length

/-- What `sscanf` stores for unsigned numbers that are in the range of their types. -/
structure Correct (sscanf : Sscanf F) : Prop where
  int : ∀ digits, digits ≠ [] → (∀ c ∈ digits, c.isDigit) → number digits < 2 ^ 31 →
    sscanf.int digits = Int32.ofNat (number digits)
  unsigned : ∀ digits, digits ≠ [] → (∀ c ∈ digits, c.isDigit) → number digits < 2 ^ 64 →
    sscanf.unsigned digits = UInt64.ofNat (number digits)
  feature : ∀ text, IsDecimal text → sscanf.feature text = decimalOf text

structure InRange (l : Line) : Prop where
  label : number l.label < 2 ^ 31
  index : ∀ p ∈ l.pairs, number p.index < 2 ^ 31
  value : ∀ p ∈ l.pairs, IsDecimal p.value

def written (ofInt : Int32 → F) (l : Line) : Sample F :=
  (l.pairs.map fun p => (Int32.ofNat (number p.index), decimalOf p.value), ofInt (Int32.ofNat (number l.label)))

theorem sample_written {sscanf : Sscanf F} (correct : Correct sscanf) {l : Line} (inRange : InRange l) :
    l.sample sscanf = written sscanf.ofInt l := by
  have label := correct.int l.label l.some_label l.label_digits inRange.label
  have pairs : l.pairs.map (Pair.feature sscanf) =
      l.pairs.map fun p => (Int32.ofNat (number p.index), decimalOf p.value) := by
    apply List.map_congr_left
    intro p member
    have small := inRange.index p member
    have index := correct.unsigned p.index p.some_index p.index_digits (Nat.lt_trans small (by decide))
    have narrow : (UInt64.ofNat (number p.index)).toUInt32.toInt32 = Int32.ofNat (UInt64.ofNat (number p.index)).toNat := rfl
    have same : (UInt64.ofNat (number p.index)).toNat = number p.index :=
      UInt64.toNat_ofNat_of_lt' (Nat.lt_trans small (by decide))
    rw [Pair.feature, correct.feature p.value (inRange.value p member), index, narrow, same]
  rw [Line.sample, written, label, pairs]

end Numbers

section TooMany
variable {p : Parser F} {room : Nat} (many : room < p.rows)
include many

theorem buildDatasetLibsvm_many (turns : Nat) (s : Text) :
    buildDatasetLibsvm p room turns s = (.error (.stop (.thrown "Error parsing")), s) := by
  have refused : resize room p.rows s = (.error (.stop (.thrown "std::bad_alloc")), s) := by
    rw [resize, if_pos many]
    rfl
  rw [buildDatasetLibsvm, bind_error refused]

theorem parse_many (turns : Nat) (text : List Char) (result : List (SparseDataset F)) :
    (parseObjLibsvm p room turns text).1 ≠ .ok result := by
  intro returned
  rw [parseObjLibsvm, parse] at returned
  rcases read : readUntilNewline turns ⟨text, 0⟩ with ⟨_ | _, t⟩
  · rw [bind_error read] at returned
    cases returned
  · rw [bind_ok read, bind_ok (defined_ok rfl)] at returned
    by_cases past_end : t.data.length ≤ t.index
    · rw [if_pos past_end] at returned
      cases returned
    · rw [if_neg past_end] at returned
      cases turns with
      | zero => cases returned
      | succ turns =>
        rw [minibatches, bind_error (buildDatasetLibsvm_many many (turns + 1) t)] at returned
        cases returned

end TooMany

section Lines
variable [OfScientific F]

/-- What is expected of a parsed text: as many minibatches as the lines fill, with the rows and labels of the lines in
their order, and the text as it was. -/
structure Parses (p : Parser F) (room : Nat) (text : List Char) (lines : List Line) (turns : Nat) : Prop where
  returns : ∃ result, (parseObjLibsvm p room turns text).1 = .ok result ∧ result.length = lines.length / p.rows ∧
    (∀ minibatch ∈ result, minibatch.data.length = p.rows ∧ minibatch.labels.length = p.rows) ∧
    result.flatMap samplesOf = (lines.take (lines.length / p.rows * p.rows)).map (written p.sscanf.ofInt)
  restored : (parseObjLibsvm p room turns text).2.data = text

/-- Part of a line, complete lines, and a further line that is cut anywhere but behind a colon. Every index is in the
text, and no loop goes on for longer than the text is. -/
theorem parses_lines (p : Parser F) (correct : Correct p.sscanf) {room : Nat} (few : p.rows ≤ room)
    (first : List Char) (free : '\n' ∉ first) (lines : List Line) (some_line : lines ≠ []) (inRange : ∀ l ∈ lines, InRange l) (next : Line)
    (cut : List Char) (begins : cut <+: next.text) (kept : cut.getLast? ≠ some ':') :
    ∀ turns, (first ++ '\n' :: (textOf lines ++ cut)).length < turns →
      Parses p room (first ++ '\n' :: (textOf lines ++ cut)) lines turns := by
  intro turns enough
  have more : textOf lines ++ cut ≠ [] := by
    cases lines with
    | nil => exact absurd rfl some_line
    | cons l lines =>
      rw [textOf_cons]
      simp
  have parsed := p.parseObjLibsvm_lines free lines next begins more
  rw [if_neg kept] at parsed
  have agrees := parse_agrees p few enough
  rw [parsed] at agrees
  have samples : ∀ l ∈ lines.take (lines.length / p.rows * p.rows), l.sample p.sscanf = written p.sscanf.ofInt l :=
    fun l member => sample_written correct (inRange l (List.mem_of_mem_take member))
  refine ⟨⟨_, agrees.1, p.minibatchesOf_length lines, p.minibatchesOf_rows lines, ?_⟩, agrees.2⟩
  rw [p.minibatchesOf_samples]
  exact List.map_congr_left samples

end Lines

section Cuts

def Returns (p : Parser F) (room : Nat) (text : List Char) (result : List (SparseDataset F)) : Prop :=
  ∀ turns, text.length < turns → (parseObjLibsvm p room turns text).1 = .ok result

theorem parse_fetched {it : Iterator F} {lines : List Line} (file : it.file = textOf lines ∨ it.file ++ ['\n'] = textOf lines)
    {range : Range} {text : List Char} (got : it.s3GetObjectRange range = some text) (newlines : 2 ≤ text.count '\n') :
    it.parseObjLibsvm text = if text.getLast? = some ':' then .error (.exception "Error parsing") else
      .ok (it.minibatchesOf ((lines.drop (newlinesBefore it.file range.1.toNat + 1)).take (text.count '\n' - 1))) := by
  obtain ⟨more, begins⟩ : it.file <+: textOf lines := by
    rcases file with same | short
    · exact same ▸ List.prefix_rfl
    · exact short ▸ List.prefix_append _ _
  have split : it.file.take range.1.toNat ++ (text ++ (it.file.drop (range.2.toNat + 1) ++ more)) = textOf lines := by
    rw [← List.append_assoc, ← (fetched_text got).2, ← List.append_assoc, List.take_append_drop, begins]
  have newline : '\n' ∈ text := List.count_pos_iff.mp (by omega)
  obtain ⟨first, l, cut, free, cut_within, same⟩ := text_at split newline
  change text = first ++ '\n' :: (textOf ((lines.drop (newlinesBefore it.file range.1.toNat + 1)).take _) ++ cut) at same
  generalize (lines.drop (newlinesBefore it.file range.1.toNat + 1)).take (text.count '\n' - 1) = whole at same ⊢
  subst same
  have complete : textOf whole ++ cut ≠ [] := by
    intro none
    rw [none, List.count_append, List.count_eq_zero_of_not_mem free] at newlines
    exact absurd newlines (by decide)
  simp only [last_colon]
  exact it.parseObjLibsvm_lines free whole l cut_within complete

theorem returns_parsed {p : Parser F} {text : List Char} {result : List (SparseDataset F)} {room : Nat}
    (few : p.rows ≤ room) : Returns p room text result ↔ p.parseObjLibsvm text = .ok result := by
  constructor
  · intro returns
    have returned := returns _ (Nat.lt_succ_self _)
    rw [(parse_agrees p few (Nat.lt_succ_self _)).1] at returned
    cases parsed : p.parseObjLibsvm text with
    | ok found =>
      rw [parsed] at returned
      exact congrArg Except.ok (Except.ok.inj returned)
    | error fault =>
      rw [parsed] at returned
      cases returned
  · intro parsed turns enough
    rw [(parse_agrees p few enough).1, parsed]
    rfl

/-- A text with a complete line goes wrong only where it ends in a colon, or where no minibatch can be made at all. What
is returned is made of its complete lines. The last line of the file may lack its newline. -/
theorem returns_iff (it : Iterator F) (room : Nat) (lines : List Line)
    (file : it.file = textOf lines ∨ it.file ++ ['\n'] = textOf lines) :
    ∀ curIndex sampled range after text, it.getFileRange curIndex sampled = some (range, after) →
      it.s3GetObjectRange range = some text → 2 ≤ text.count '\n' →
      ((∃ result, Returns it.toParser room text result) ↔ text.getLast? ≠ some ':' ∧ it.rows ≤ room) ∧
      ∀ result, Returns it.toParser room text result → result =
        it.minibatchesOf ((lines.drop (newlinesBefore it.file range.1.toNat + 1)).take (text.count '\n' - 1)) := by
  intro curIndex sampled range after text _ got newlines
  have parsed := parse_fetched file got newlines
  rcases Nat.lt_or_ge room it.rows with many | few
  · have never : ∀ result, ¬ Returns it.toParser room text result :=
      fun result returns => parse_many many _ _ result (returns _ (Nat.lt_succ_self _))
    refine ⟨iff_of_false (fun ⟨result, returns⟩ => never result returns) fun holds => ?_, fun result returns => ?_⟩
    · exact Nat.not_lt.mpr holds.2 many
    · exact (never result returns).elim
  simp only [returns_parsed few, parsed]
  by_cases colon : text.getLast? = some ':'
  · rw [if_pos colon]
    exact ⟨iff_of_false (fun ⟨_, returned⟩ => nomatch returned) fun holds => holds.1 colon, nofun⟩
  · rw [if_neg colon]
    exact ⟨iff_of_true ⟨_, rfl⟩ ⟨colon, few⟩, fun result returned => (Except.ok.inj returned).symm⟩

end Cuts

section Runs

def rationals : Sscanf ℚ where
  int token := Int32.ofNat (number token)
  unsigned token := UInt64.ofNat (number token)
  feature := decimalOf
  ofInt value := value.toInt

theorem rationals_correct : Correct rationals where
  int _ _ _ _ := rfl
  unsigned _ _ _ _ := rfl
  feature _ _ := rfl

theorem two_rows : (0 : UInt64) < 2 := by decide

theorem one_row : (0 : UInt64) < 1 := by decide

def inPairs : Parser ℚ := ⟨rationals, 2, two_rows⟩

/-- `1 2:0.5` -/
def half : Line where
  label := ['1']
  pairs := [⟨[' '], ['2'], ['0', '.', '5'], some_space, space_blank, by decide, List.all_eq_true.mp rfl, by decide,
    List.all_eq_true.mp rfl⟩]
  trailing := []
  some_label := by decide
  label_digits := List.all_eq_true.mp rfl
  trailing_blank := Line.zero.trailing_blank

theorem half_inRange : InRange half where
  label := by decide
  index := List.forall_mem_singleton.mpr (by decide)
  value := List.forall_mem_singleton.mpr ⟨by decide, .inr ⟨['5'], by decide, List.all_eq_true.mp rfl⟩⟩

theorem zero_inRange : InRange .zero := ⟨by decide, nofun, nofun⟩

theorem parses_lines_cut :
    Parses inPairs 1000 ['7', '\n', '1', ' ', '2', ':', '0', '.', '5', '\n', '0', '\n', '1', ' ', '2'] [half, .zero] 16 :=
  parses_lines inPairs rationals_correct (by decide) ['7'] (by decide) [half, .zero] (by decide)
    (List.forall_mem_cons.mpr ⟨half_inRange, List.forall_mem_singleton.mpr zero_inRange⟩) half ['1', ' ', '2']
    ⟨[':', '0', '.', '5'], rfl⟩ (by decide) 16 (by decide)

/-- More rows than a vector can have elements, however much room there is. -/
theorem too_many_rows : ¬ ∀ p : Parser ℚ, Correct p.sscanf → ∃ turns, Parses p maxRows ['\n', '0', '\n'] [.zero] turns := by
  intro always
  obtain ⟨turns, parses⟩ := always ⟨rationals, 9223372036854775808, by decide⟩ rationals_correct
  obtain ⟨result, returned, _⟩ := parses.returns
  exact parse_many (by decide +kernel) turns _ result returned

def smallFile : Iterator ℚ where
  toParser := inPairs
  file := ['0', '\n', '0', '\n', '0']
  fileSize := 5
  randomAccess := false

theorem returns_iff_small : ∃ result, Returns smallFile.toParser 1000 ['0', '\n', '0', '\n', '0'] result := by
  have same : smallFile.file ++ ['\n'] = textOf [.zero, .zero, .zero] := rfl
  have whole := returns_iff smallFile 1000 [.zero, .zero, .zero] (.inr same) 0 0 (0, 5) 0 ['0', '\n', '0', '\n', '0']
    (by decide) rfl (by decide)
  exact whole.1.mpr ⟨by decide, by decide⟩

/-- `0  1:2` -/
def spaced : Line where
  label := ['0']
  pairs := [⟨[' ', ' '], ['1'], ['2'], by decide, List.all_eq_true.mp rfl, by decide, List.all_eq_true.mp rfl,
    by decide, List.all_eq_true.mp rfl⟩]
  trailing := []
  some_label := Line.zero.some_label
  label_digits := Line.zero.label_digits
  trailing_blank := Line.zero.trailing_blank

theorem spaced_inRange : InRange spaced where
  label := by decide
  index := List.forall_mem_singleton.mpr (by decide)
  value := List.forall_mem_singleton.mpr ⟨by decide, .inl (by decide)⟩

def longFile (n : Nat) : Iterator ℚ where
  sscanf := rationals
  minibatchRows := 1
  positive := one_row
  file := textOf (List.replicate n .zero ++ [spaced])
  fileSize := 10485763
  randomAccess := false

theorem longFile_text (n : Nat) :
    textOf (List.replicate n .zero ++ [spaced]) = textOf (List.replicate n .zero) ++ (['0', ' ', ' ', '1', ':'] ++ ['2', '\n']) := by
  rw [textOf, List.flatMap_append]
  rfl

theorem longFile_fetched {n : Nat} (size : 2 * n = 10485756) : (longFile n).s3GetObjectRange (0, 10485760) =
    some (textOf (List.replicate n .zero) ++ ['0', ' ', ' ', '1', ':']) := by
  have front : (textOf (List.replicate n .zero) ++ ['0', ' ', ' ', '1', ':']).length = 10485761 := by
    rw [List.length_append, zeros_length, size]
    rfl
  have file : (longFile n).file = (textOf (List.replicate n .zero) ++ ['0', ' ', ' ', '1', ':']) ++ ['2', '\n'] := by
    rw [longFile, longFile_text, List.append_assoc]
  have inside : (0 : UInt64) ≤ 10485760 ∧ (0 : UInt64).toNat < (longFile n).file.length := by
    rw [file, List.length_append, front]
    decide
  rw [Iterator.s3GetObjectRange, if_pos inside, file]
  exact congrArg some (List.take_left' front)

/-- The range of a file is cut behind the colon of its last line. -/
theorem colon_cut_throws : ¬ ∀ (it : Iterator ℚ) (lines : List Line), Correct it.sscanf → it.file = textOf lines →
    it.fileSize.toNat = it.file.length → (∀ l ∈ lines, InRange l ∧ 2 * (l.text.length + 1) < fetchSize.toNat) →
    ∀ curIndex sampled range after text, it.getFileRange curIndex sampled = some (range, after) →
      it.s3GetObjectRange range = some text → 2 ≤ text.count '\n' → ∃ result, Returns it.toParser maxRows text result := by
  intro always
  have size : 2 * 5242878 = 10485756 := rfl
  generalize 5242878 = n at size
  have length : (longFile n).fileSize.toNat = (longFile n).file.length := by
    rw [longFile, longFile_text, List.length_append, zeros_length, size]
    rfl
  have lines : ∀ l ∈ List.replicate n Line.zero ++ [spaced], InRange l ∧ 2 * (l.text.length + 1) < fetchSize.toNat := by
    intro l member
    rcases List.mem_append.mp member with zeros | last
    · rw [List.eq_of_mem_replicate zeros]
      exact ⟨zero_inRange, by decide⟩
    · rw [List.mem_singleton.mp last]
      exact ⟨spaced_inRange, by decide⟩
  have chosen : (longFile n).getFileRange 0 0 = some ((0, 10485760), 10485760) := by
    have fileSize : (longFile n).fileSize = 10485763 := rfl
    unfold Iterator.getFileRange
    rw [fileSize]
    rfl
  have newlines : 2 ≤ (textOf (List.replicate n .zero) ++ ['0', ' ', ' ', '1', ':']).count '\n' := by
    rw [List.count_append, textOf_newlines, List.length_replicate]
    omega
  obtain ⟨result, returns⟩ :=
    always (longFile n) _ rationals_correct rfl length lines 0 0 _ _ _ chosen (longFile_fetched size) newlines
  have one : (1 : UInt64).toNat ≤ maxRows := by decide +kernel
  have few : (longFile n).rows ≤ maxRows := one
  have parsed := (returns_parsed few).mp returns
  have colon : (textOf (List.replicate n .zero) ++ ['0', ' ', ' ', '1', ':']).getLast? = some ':' := by
    rw [List.getLast?_append]
    rfl
  rw [parse_fetched (.inl rfl) (longFile_fetched size) newlines, if_pos colon] at parsed
  cases parsed

end Runs
end LibsvmScanner

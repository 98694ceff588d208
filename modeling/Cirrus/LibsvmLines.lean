import Cirrus.LibsvmParser
import Mathlib.Data.List.TakeWhile

/-!
Well-formed lines of a libsvm file, and what the parser makes of a text that is
cut out of such lines at any two places.
-/
namespace S3IteratorLibsvm
open SparseLR Scan
variable {F T : Type}

/-- `<index>:<value>` after some blanks. -/
structure Pair where
  gap : List Char
  index : List Char
  value : List Char
  some_gap : gap ≠ []
  gap_blank : ∀ c ∈ gap, blank c
  some_index : index ≠ []
  index_digits : ∀ c ∈ index, c.isDigit
  value_digit : (peek value).isDigit
  value_decimal : ∀ c ∈ value, inDecimal c

structure Line where
  label : List Char
  pairs : List Pair
  trailing : List Char
  some_label : label ≠ []
  label_digits : ∀ c ∈ label, c.isDigit
  trailing_blank : ∀ c ∈ trailing, blank c

def Pair.text (p : Pair) : List Char := p.gap ++ (p.index ++ ':' :: p.value)

def Pair.feature (sscanf : Sscanf F) (p : Pair) : Int32 × F :=
  ((sscanf.unsigned p.index).toUInt32.toInt32, sscanf.feature p.value)

theorem Pair.text_append (p : Pair) (rest : List Char) :
    p.text ++ rest = p.gap ++ (p.index ++ ':' :: (p.value ++ rest)) := by
  simp [Pair.text]

namespace Line

def text (l : Line) : List Char := l.label ++ (l.pairs.flatMap Pair.text ++ l.trailing)

def sample (sscanf : Sscanf F) (l : Line) : Sample F :=
  (l.pairs.map (Pair.feature sscanf), sscanf.ofInt (sscanf.int l.label))

end Line

def textOf (lines : List Line) : List Char := lines.flatMap fun l => l.text ++ ['\n']

section Numbers

theorem not_decimal_of_space {c : Char} (space : isspace c) : inDecimal c = false := by
  simp only [isspace, Bool.or_eq_true, decide_eq_true_eq] at space
  rcases space with ((((rfl | rfl) | rfl) | rfl) | rfl) | rfl <;> rfl

theorem space_of_blank {c : Char} (empty : blank c) : isspace c := by
  simp only [blank, Bool.and_eq_true] at empty
  exact empty.2

theorem not_blank_of_digit {c : Char} (digit : c.isDigit) : blank c = false := by
  simp [blank, not_space_of_digit digit]

theorem head_of_peek {data : List Char} (digit : (peek data).isDigit) : ∃ c rest, data = c :: rest ∧ c.isDigit := by
  cases data with
  | nil => simp [peek] at digit
  | cons c rest => exact ⟨c, rest, rfl, digit⟩

theorem readNum_token {accepts : Char → Bool} (sscanf : List Char → T) {token rest : List Char}
    (digit : (peek token).isDigit) (all : ∀ c ∈ token, accepts c) (stops : ∀ c ∈ rest.head?, accepts c = false) :
    readNum accepts sscanf (token ++ rest) = .ok (sscanf token, rest) := by
  obtain ⟨c, tail, rfl, _⟩ := head_of_peek digit
  unfold readNum
  rw [takeWhile_token all stops, dropWhile_token all stops]
  exact if_pos digit

theorem readNum_all {accepts : Char → Bool} (sscanf : List Char → T) {token : List Char} (digit : (peek token).isDigit)
    (all : ∀ c ∈ token, accepts c) : readNum accepts sscanf token = .ok (sscanf token, []) := by
  have read := readNum_token sscanf digit all (by simp : ∀ c ∈ ([] : List Char).head?, accepts c = false)
  rwa [List.append_nil] at read

end Numbers

section Pairs
variable (sscanf : Sscanf F)

theorem readPairs_gap {gap : List Char} (blanks : ∀ c ∈ gap, blank c) (data : List Char) :
    readPairs sscanf (gap ++ data) = readPairs sscanf data := by
  rw [readPairs, readPairs.eq_def sscanf data, List.dropWhile_append_of_pos blanks]

theorem readPairs_end : readPairs sscanf [] = .error .cut := by
  unfold readPairs
  simp [peek]

theorem readPairs_newline (rest : List Char) : readPairs sscanf ('\n' :: rest) = .ok ([], '\n' :: rest) := by
  unfold readPairs
  simp [peek, blank]

theorem peek_digits {token : List Char} (some_token : token ≠ []) (digits : ∀ c ∈ token, c.isDigit) (rest : List Char) :
    (peek (token ++ rest)).isDigit ∧ (token ++ rest).dropWhile blank = token ++ rest ∧
      (token ++ rest).dropWhile isspace = token ++ rest := by
  obtain ⟨c, tail, rfl⟩ := List.exists_cons_of_ne_nil some_token
  have digit := digits c List.mem_cons_self
  refine ⟨digit, dropWhile_stopped ?_, dropWhile_stopped ?_⟩
  · simpa using not_blank_of_digit digit
  · simpa using not_space_of_digit digit

theorem readPairs_index {index : List Char} (some_index : index ≠ []) (digits : ∀ c ∈ index, c.isDigit) :
    readPairs sscanf index = .error .cut := by
  obtain ⟨digit, whole, _⟩ := peek_digits some_index digits []
  rw [List.append_nil] at digit whole
  have read := readNum_all sscanf.unsigned digit digits
  unfold readPairs
  rw [whole, if_pos digit]
  split
  next stop failed => rw [read] at failed; cases failed
  next ind next found => rw [read] at found; cases found
  next => rfl

theorem readPairs_value {index : List Char} (some_index : index ≠ []) (digits : ∀ c ∈ index, c.isDigit)
    (next : List Char) : readPairs sscanf (index ++ ':' :: next) =
      readNum inDecimal sscanf.feature next >>= fun (value, rest) =>
        readPairs sscanf rest >>= fun (pairs, rest) =>
          pure (((sscanf.unsigned index).toUInt32.toInt32, value) :: pairs, rest) := by
  obtain ⟨digit, whole, _⟩ := peek_digits some_index digits (':' :: next)
  have read : readNum Char.isDigit sscanf.unsigned (index ++ ':' :: next) = .ok (sscanf.unsigned index, ':' :: next) :=
    readNum_token sscanf.unsigned (by simpa using (peek_digits some_index digits []).1) digits (by simp)
  rw [readPairs]
  rw [whole, if_pos digit]
  split
  next stop failed => rw [read] at failed; cases failed
  next ind next' found =>
    rw [read] at found
    cases found
    split
    next stop failed => rw [failed]; rfl
    next value rest found => rw [found]; rfl
  next other found =>
    rw [read] at found
    cases found
    exact (other _ _ rfl).elim

theorem Pair.readPairs (p : Pair) {rest : List Char} (stops : ∀ c ∈ rest.head?, inDecimal c = false) :
    readPairs sscanf (p.text ++ rest) = readPairs sscanf rest >>= fun (pairs, rest) =>
      pure (p.feature sscanf :: pairs, rest) := by
  rw [p.text_append, readPairs_gap sscanf p.gap_blank,
    readPairs_value sscanf p.some_index p.index_digits,
    readNum_token sscanf.feature p.value_digit p.value_decimal stops]
  rfl

theorem head_of_pairs (pairs : List Pair) (rest : List Char) (spaced : ∀ c ∈ rest.head?, isspace c) :
    ∀ c ∈ (pairs.flatMap Pair.text ++ rest).head?, isspace c := by
  cases pairs with
  | nil => exact spaced
  | cons p pairs =>
    obtain ⟨c, gap, shape⟩ := List.exists_cons_of_ne_nil p.some_gap
    have space := space_of_blank (p.gap_blank c (by rw [shape]; exact List.mem_cons_self))
    simp [Pair.text, shape, space]

theorem head_of_blanks {gap : List Char} (blanks : ∀ c ∈ gap, blank c) (rest : List Char) (spaced : ∀ c ∈ rest.head?, isspace c) :
    ∀ c ∈ (gap ++ rest).head?, isspace c := by
  cases gap with
  | nil => exact spaced
  | cons c gap => simpa using space_of_blank (blanks c List.mem_cons_self)

theorem readPairs_line (pairs : List Pair) {trailing : List Char} (blanks : ∀ c ∈ trailing, blank c) (rest : List Char) :
    readPairs sscanf (pairs.flatMap Pair.text ++ (trailing ++ '\n' :: rest)) =
      .ok (pairs.map (Pair.feature sscanf), '\n' :: rest) := by
  induction pairs with
  | nil =>
    rw [List.flatMap_nil, List.nil_append, readPairs_gap sscanf blanks]
    exact readPairs_newline sscanf rest
  | cons p pairs ih =>
    have spaced := head_of_pairs pairs _ (head_of_blanks blanks ('\n' :: rest) (by simp [isspace]))
    rw [List.flatMap_cons, List.append_assoc, p.readPairs sscanf fun c head => not_decimal_of_space (spaced c head), ih]
    rfl

end Pairs

section Cuts
variable (sscanf : Sscanf F)

def stopAt (cut : List Char) : Stop := if cut.getLast? = some ':' then .thrown "Error in the dataset" else .cut

theorem stopAt_append {front : List Char} (other : ∀ c ∈ front.getLast?, c ≠ ':') (cut : List Char) :
    stopAt (front ++ cut) = stopAt cut := by
  unfold stopAt
  cases last : cut.getLast? with
  | none =>
    rw [List.getLast?_append, last, Option.none_or]
    exact if_neg fun colon => other ':' colon rfl
  | some c => rw [List.getLast?_append, last, Option.some_or]

theorem stopAt_free {cut : List Char} (free : ∀ c ∈ cut, c ≠ ':') : stopAt cut = .cut :=
  if_neg fun colon => free ':' (List.mem_of_getLast? colon) rfl

theorem not_colon {p : Char → Bool} (fails : p ':' = false) {c : Char} (holds : p c) : c ≠ ':' := by
  intro colon
  rw [colon, fails] at holds
  cases holds

theorem stopAt_value {token : List Char} (digit : (peek token).isDigit) (decimals : ∀ c ∈ token, inDecimal c)
    (rest : List Char) : stopAt (':' :: (token ++ rest)) = stopAt rest := by
  obtain ⟨c, tail, rfl, _⟩ := head_of_peek digit
  rw [← List.cons_append]
  apply stopAt_append
  intro c' last
  rw [List.getLast?_cons_cons] at last
  exact not_colon rfl (decimals c' (List.mem_of_getLast? last))

theorem prefix_append {cut a b : List Char} (begins : cut <+: a ++ b) : cut <+: a ∨ ∃ rest, cut = a ++ rest ∧ rest <+: b := by
  rcases List.prefix_or_prefix_of_prefix begins (List.prefix_append a b) with short | ⟨rest, rfl⟩
  · exact .inl short
  · exact .inr ⟨rest, rfl, (List.prefix_append_right_inj a).mp begins⟩

theorem readPairs_blank {gap : List Char} (blanks : ∀ c ∈ gap, blank c) : readPairs sscanf gap = .error .cut := by
  rw [← List.append_nil gap, readPairs_gap sscanf blanks]
  exact readPairs_end sscanf

theorem readPairs_digits {index : List Char} (digits : ∀ c ∈ index, c.isDigit) :
    readPairs sscanf index = .error .cut := by
  cases index with
  | nil => exact readPairs_end sscanf
  | cons c index => exact readPairs_index sscanf (List.cons_ne_nil c index) digits

theorem readValue_cut (p : Pair) (pairs : List Pair) {trailing : List Char} (blanks : ∀ c ∈ trailing, blank c)
    (ih : ∀ {cut : List Char}, cut <+: pairs.flatMap Pair.text ++ trailing →
      readPairs sscanf cut = .error (stopAt cut)) {cut : List Char}
    (begins : cut <+: p.value ++ (pairs.flatMap Pair.text ++ trailing)) (ind : Int32) :
    (readNum inDecimal sscanf.feature cut >>= fun (value, rest) =>
      readPairs sscanf rest >>= fun (pairs, rest) => pure ((ind, value) :: pairs, rest)) =
        .error (stopAt (':' :: cut)) := by
  cases cut with
  | nil => rfl
  | cons c cut =>
    have digit : (peek (c :: cut)).isDigit := by
      obtain ⟨d, rest, shape, digit⟩ := head_of_peek p.value_digit
      rw [shape] at begins
      exact (List.cons_prefix_cons.mp begins).1 ▸ digit
    rcases prefix_append begins with short | ⟨cut', shape, later⟩
    · have decimals : ∀ c' ∈ c :: cut, inDecimal c' := fun c' member => p.value_decimal c' (short.subset member)
      rw [readNum_all sscanf.feature digit decimals, ← List.append_nil (c :: cut),
        stopAt_value digit decimals]
      show (readPairs sscanf [] >>= _) = _
      rw [readPairs_end]
      rfl
    · have spaced : ∀ c ∈ cut'.head?, isspace c := by
        have whole := head_of_pairs pairs trailing (by simpa using head_of_blanks blanks [] (by simp))
        intro c head
        obtain ⟨more, shape⟩ := later
        rw [← shape, List.head?_append, head] at whole
        exact whole c rfl
      rw [shape, readNum_token sscanf.feature p.value_digit p.value_decimal fun c head => not_decimal_of_space (spaced c head),
        stopAt_value p.value_digit p.value_decimal]
      show (readPairs sscanf cut' >>= _) = _
      rw [ih later]
      rfl

theorem readPairs_cut (pairs : List Pair) {trailing : List Char} (blanks : ∀ c ∈ trailing, blank c) {cut : List Char}
    (begins : cut <+: pairs.flatMap Pair.text ++ trailing) : readPairs sscanf cut = .error (stopAt cut) := by
  induction pairs generalizing cut with
  | nil =>
    have blanks : ∀ c ∈ cut, blank c := fun c member => blanks c (begins.subset member)
    rw [stopAt_free fun c member => not_colon rfl (blanks c member)]
    exact readPairs_blank sscanf blanks
  | cons p pairs ih =>
    rw [List.flatMap_cons, List.append_assoc, p.text_append] at begins
    rcases prefix_append begins with short | ⟨cut, rfl, index⟩
    · -- within the blanks
      have blanks : ∀ c ∈ cut, blank c := fun c member => p.gap_blank c (short.subset member)
      rw [stopAt_free fun c member => not_colon rfl (blanks c member)]
      exact readPairs_blank sscanf blanks
    rw [readPairs_gap sscanf p.gap_blank, stopAt_append fun c last =>
      not_colon rfl (p.gap_blank c (List.mem_of_getLast? last))]
    rcases prefix_append index with short | ⟨cut, rfl, colon⟩
    · -- within the index
      have digits : ∀ c ∈ cut, c.isDigit := fun c member => p.index_digits c (short.subset member)
      rw [stopAt_free fun c member => not_colon rfl (digits c member)]
      exact readPairs_digits sscanf digits
    rw [stopAt_append fun c last => not_colon rfl (p.index_digits c (List.mem_of_getLast? last))]
    cases cut with
    | nil =>
      rw [List.append_nil]
      exact readPairs_digits sscanf p.index_digits
    | cons c cut =>
      obtain ⟨rfl, value⟩ := List.cons_prefix_cons.mp colon
      rw [readPairs_value sscanf p.some_index p.index_digits]
      exact readValue_cut sscanf p pairs blanks ih value _

end Cuts

section Lines
variable (sscanf : Sscanf F)

theorem readSample_label {label : List Char} (some_label : label ≠ []) (digits : ∀ c ∈ label, c.isDigit)
    {rest : List Char} (stops : ∀ c ∈ rest.head?, c.isDigit = false) :
    readSample sscanf (label ++ rest) = readPairs sscanf rest >>= fun (pairs, rest) =>
      pure ((pairs, sscanf.ofInt (sscanf.int label)), rest) := by
  obtain ⟨digit, _, whole⟩ := peek_digits some_label digits rest
  have first := (peek_digits some_label digits []).1
  rw [List.append_nil] at first
  unfold readSample
  rw [whole, if_pos digit, readNum_token sscanf.int first digits stops]
  rfl

theorem not_digit_of_head {data : List Char} (spaced : ∀ c ∈ data.head?, isspace c) :
    ∀ c ∈ data.head?, c.isDigit = false := fun c head => not_digit_of_space (spaced c head)

theorem Line.readSample (l : Line) (rest : List Char) :
    readSample sscanf (l.text ++ '\n' :: rest) = .ok (l.sample sscanf, '\n' :: rest) := by
  have spaced := head_of_pairs l.pairs _ (head_of_blanks l.trailing_blank ('\n' :: rest) (by simp [isspace]))
  unfold Line.text
  rw [List.append_assoc, List.append_assoc, readSample_label sscanf l.some_label l.label_digits (not_digit_of_head spaced),
    readPairs_line sscanf l.pairs l.trailing_blank]
  rfl

theorem Line.readSample_cut (l : Line) {cut : List Char} (begins : cut <+: l.text) :
    S3IteratorLibsvm.readSample sscanf cut = .error (stopAt cut) := by
  have spaced := head_of_pairs l.pairs l.trailing (by simpa using head_of_blanks l.trailing_blank [] (by simp))
  have within : ∀ {cut : List Char}, cut <+: l.pairs.flatMap Pair.text ++ l.trailing → ∀ c ∈ cut.head?, isspace c := by
    intro cut ⟨more, shape⟩ c head
    rw [← shape, List.head?_append, head] at spaced
    exact spaced c rfl
  have label : ∀ {label rest : List Char}, label ≠ [] → (∀ c ∈ label, c.isDigit) →
      rest <+: l.pairs.flatMap Pair.text ++ l.trailing →
      S3IteratorLibsvm.readSample sscanf (label ++ rest) = .error (stopAt (label ++ rest)) := by
    intro label rest some_label digits begins
    rw [readSample_label sscanf some_label digits (not_digit_of_head (within begins)),
      readPairs_cut sscanf l.pairs l.trailing_blank begins,
      stopAt_append fun c last => not_colon rfl (digits c (List.mem_of_getLast? last))]
    rfl
  rcases prefix_append begins with short | ⟨rest, rfl, later⟩
  · cases cut with
    | nil => rfl
    | cons c cut =>
      have cut_label := label (List.cons_ne_nil c cut) (fun d member => l.label_digits d (short.subset member)) List.nil_prefix
      rwa [List.append_nil] at cut_label
  · exact label l.some_label l.label_digits later

theorem readSamples_newline (n : Nat) (data : List Char) :
    readSamples sscanf (n + 1) ('\n' :: data) = readSamples sscanf (n + 1) data := rfl

theorem readSamples_lines (l : Line) (lines : List Line) (rest : List Char) :
    readSamples sscanf (l :: lines).length (textOf (l :: lines) ++ rest) =
      .ok ((l :: lines).map (Line.sample sscanf), '\n' :: rest) := by
  induction lines generalizing l with
  | nil =>
    have first := l.readSample sscanf rest
    simp [textOf, readSamples, first, bind, Except.bind, pure, Except.pure]
  | cons next lines ih =>
    have first := l.readSample sscanf (textOf (next :: lines) ++ rest)
    have more := ih next
    rw [List.length_cons, ← readSamples_newline] at more
    have split : textOf (l :: next :: lines) ++ rest = l.text ++ '\n' :: (textOf (next :: lines) ++ rest) := by
      simp [textOf]
    rw [List.length_cons, List.length_cons, split, readSamples, first]
    simp only [bind, Except.bind, more]
    rfl

theorem textOf_cons (l : Line) (lines : List Line) (rest : List Char) :
    textOf (l :: lines) ++ rest = l.text ++ '\n' :: (textOf lines ++ rest) := by
  simp [textOf]

theorem readSamples_cut {lines : List Line} {n : Nat} (more : lines.length < n) (l : Line) {cut : List Char}
    (begins : cut <+: l.text) : readSamples sscanf n (textOf lines ++ cut) = .error (stopAt cut) := by
  induction lines generalizing n with
  | nil =>
    obtain ⟨n, rfl⟩ := Nat.exists_eq_succ_of_ne_zero (Nat.ne_zero_of_lt more)
    have first := l.readSample_cut sscanf begins
    simp [textOf, readSamples, first, bind, Except.bind]
  | cons next lines ih =>
    rw [List.length_cons] at more
    obtain ⟨n, rfl⟩ := Nat.exists_eq_succ_of_ne_zero (Nat.ne_zero_of_lt more)
    obtain ⟨n, rfl⟩ := Nat.exists_eq_succ_of_ne_zero (show n ≠ 0 by omega)
    have first := next.readSample sscanf (textOf lines ++ cut)
    have later := ih (show lines.length < n + 1 by omega)
    rw [← readSamples_newline] at later
    rw [textOf_cons, readSamples, first]
    simp only [bind, Except.bind, later]

end Lines

namespace Parser
variable (p : Parser F)

theorem minibatches_newline (data : List Char) : p.minibatches ('\n' :: data) = p.minibatches data := by
  have same : p.buildDatasetLibsvm ('\n' :: data) = p.buildDatasetLibsvm data := by
    obtain ⟨n, rows⟩ := Nat.exists_eq_succ_of_ne_zero (Nat.ne_of_gt p.rows_pos)
    simp only [buildDatasetLibsvm, rows, readSamples_newline]
  rw [minibatches, minibatches.eq_def p data, same]

/-- The minibatches of the complete lines, as many as there are rows for. -/
def minibatchesOf (lines : List Line) : List (SparseDataset F) :=
  (List.range (lines.length / p.rows)).map fun k =>
    dataset (((lines.drop (k * p.rows)).take p.rows).map (Line.sample p.sscanf))

theorem minibatchesOf_short {lines : List Line} (few : lines.length < p.rows) : p.minibatchesOf lines = [] := by
  simp [minibatchesOf, Nat.div_eq_of_lt few]

theorem minibatchesOf_long {lines : List Line} (enough : p.rows ≤ lines.length) :
    p.minibatchesOf lines =
      dataset ((lines.take p.rows).map (Line.sample p.sscanf)) :: p.minibatchesOf (lines.drop p.rows) := by
  unfold minibatchesOf
  rw [Nat.div_eq_sub_div p.rows_pos enough, List.range_succ_eq_map, List.map_cons, List.map_map, List.length_drop,
    Nat.zero_mul, List.drop_zero]
  congr 1
  apply List.map_congr_left
  intro k _
  rw [Function.comp_apply, Nat.succ_mul, List.drop_drop, Nat.add_comm]

theorem buildDatasetLibsvm_cut {lines : List Line} (few : lines.length < p.rows) (l : Line) {cut : List Char}
    (begins : cut <+: l.text) : p.buildDatasetLibsvm (textOf lines ++ cut) =
      if cut.getLast? = some ':' then .error (.exception "Error parsing") else .ok none := by
  have read := readSamples_cut p.sscanf few l begins
  unfold buildDatasetLibsvm
  rw [read]
  by_cases colon : cut.getLast? = some ':'
  · rw [if_pos colon, stopAt, if_pos colon]
  · rw [if_neg colon, stopAt, if_neg colon]

theorem buildDatasetLibsvm_lines {lines : List Line} (enough : p.rows ≤ lines.length) (rest : List Char) :
    p.buildDatasetLibsvm (textOf lines ++ rest) =
      .ok (some (dataset ((lines.take p.rows).map (Line.sample p.sscanf)), '\n' :: (textOf (lines.drop p.rows) ++ rest))) := by
  have positive := p.rows_pos
  have split : textOf lines ++ rest = textOf (lines.take p.rows) ++ (textOf (lines.drop p.rows) ++ rest) := by
    rw [← List.append_assoc, textOf, textOf, textOf, ← List.flatMap_append, List.take_append_drop]
  have length : (lines.take p.rows).length = p.rows := List.length_take_of_le enough
  rw [split]
  cases first : lines.take p.rows with
  | nil =>
    rw [first, List.length_nil] at length
    omega
  | cons l front =>
    rw [first] at length
    have read := readSamples_lines p.sscanf l front (textOf (lines.drop p.rows) ++ rest)
    rw [length] at read
    unfold buildDatasetLibsvm
    rw [read]

theorem minibatches_lines (lines : List Line) (l : Line) {cut : List Char} (begins : cut <+: l.text) :
    p.minibatches (textOf lines ++ cut) =
      if cut.getLast? = some ':' then .error (.exception "Error parsing") else .ok (p.minibatchesOf lines) := by
  induction size : lines.length using Nat.strongRecOn generalizing lines with
  | ind size ih =>
    rcases Nat.lt_or_ge lines.length p.rows with few | enough
    · have built := p.buildDatasetLibsvm_cut few l begins
      by_cases colon : cut.getLast? = some ':'
      · rw [if_pos colon] at built
        rw [minibatches, built, if_pos colon]
      · rw [if_neg colon] at built
        rw [minibatches, built, if_neg colon, p.minibatchesOf_short few]
    · have positive := p.rows_pos
      have built := p.buildDatasetLibsvm_lines enough cut
      have later := ih (lines.drop p.rows).length (by rw [List.length_drop]; omega) (lines.drop p.rows) rfl
      rw [minibatches, built, p.minibatchesOf_long enough]
      simp only [minibatches_newline, later]
      by_cases colon : cut.getLast? = some ':'
      · rw [if_pos colon, if_pos colon]
        rfl
      · rw [if_neg colon, if_neg colon]
        rfl

theorem readUntilNewline_line {first : List Char} (free : '\n' ∉ first) (rest : List Char) :
    readUntilNewline (first ++ '\n' :: rest) = .ok rest := by
  induction first with
  | nil => rfl
  | cons c first ih =>
    rw [List.mem_cons, not_or] at free
    rw [List.cons_append, readUntilNewline, if_neg (Ne.symm free.1)]
    exact ih free.2

theorem parseObjLibsvm_lines {first : List Char} (free : '\n' ∉ first) (lines : List Line) (l : Line) {cut : List Char}
    (begins : cut <+: l.text) (more : textOf lines ++ cut ≠ []) :
    p.parseObjLibsvm (first ++ '\n' :: (textOf lines ++ cut)) =
      if cut.getLast? = some ':' then .error (.exception "Error parsing") else .ok (p.minibatchesOf lines) := by
  unfold parseObjLibsvm
  rw [readUntilNewline_line free]
  show (if textOf lines ++ cut = [] then _ else _) = _
  rw [if_neg more]
  exact p.minibatches_lines lines l begins

end Parser

section Ranges

theorem not_newline {p : Char → Bool} (fails : p '\n' = false) {c : Char} (holds : p c) : c ≠ '\n' := by
  intro newline
  rw [newline, fails] at holds
  cases holds

theorem Line.newline_free (l : Line) : '\n' ∉ l.text := by
  intro member
  simp only [Line.text, Pair.text, List.mem_append, List.mem_flatMap, List.mem_cons] at member
  rcases member with label | ⟨p, _, gap | index | colon | value⟩ | trailing
  · exact not_newline rfl (l.label_digits _ label) rfl
  · exact not_newline rfl (p.gap_blank _ gap) rfl
  · exact not_newline rfl (p.index_digits _ index) rfl
  · cases colon
  · exact not_newline rfl (p.value_decimal _ value) rfl
  · exact not_newline rfl (l.trailing_blank _ trailing) rfl

theorem textOf_newlines (lines : List Line) : (textOf lines).count '\n' = lines.length := by
  induction lines with
  | nil => rfl
  | cons l lines ih =>
    rw [← List.append_nil (textOf (l :: lines)), textOf_cons, List.count_append, List.count_cons_self, List.append_nil, ih,
      List.count_eq_zero_of_not_mem l.newline_free, List.length_cons, Nat.zero_add]

theorem lines_after {lines : List Line} {before after : List Char} (split : before ++ '\n' :: after = textOf lines) :
    ∃ rest, rest <:+ lines ∧ after = textOf rest := by
  induction lines generalizing before with
  | nil => simp [textOf] at split
  | cons l lines ih =>
    rw [← List.append_nil (textOf (l :: lines)), textOf_cons, List.append_nil] at split
    rcases List.append_eq_append_iff.mp split with ⟨more, text, tail⟩ | ⟨more, rfl, tail⟩
    · cases more with
      | nil => exact ⟨lines, List.suffix_cons l lines, (List.cons.inj tail).2⟩
      | cons c more =>
        have newline := (List.cons.inj tail).1
        exact (l.newline_free (by rw [text, newline]; simp)).elim
    · cases more with
      | nil => exact ⟨lines, List.suffix_cons l lines, (List.cons.inj tail).2.symm⟩
      | cons c more =>
        obtain ⟨rest, suffix, same⟩ := ih (List.cons.inj tail).2.symm
        exact ⟨rest, suffix.trans (List.suffix_cons l lines), same⟩

theorem some_space : [' '] ≠ [] := List.cons_ne_nil _ _

theorem space_blank : ∀ c ∈ [' '], blank c := List.all_eq_true.mp rfl

def Line.zero : Line := ⟨['0'], [], [], by simp, by simp, by simp⟩

def integers : Sscanf Nat where
  int token := Int32.ofNat (token.foldl (fun n c => 10 * n + (c.toNat - 48)) 0)
  unsigned token := UInt64.ofNat (token.foldl (fun n c => 10 * n + (c.toNat - 48)) 0)
  feature token := token.foldl (fun n c => 10 * n + (c.toNat - 48)) 0
  ofInt value := value.toInt.toNat

theorem lines_before {lines : List Line} {front : List Char} (begins : front <+: textOf lines) :
    ∃ whole l cut, whole <+: lines ∧ cut <+: Line.text l ∧ front = textOf whole ++ cut := by
  induction lines generalizing front with
  | nil =>
    rw [textOf, List.flatMap_nil, List.prefix_nil] at begins
    exact ⟨[], Line.zero, [], List.nil_prefix, List.nil_prefix, begins⟩
  | cons l lines ih =>
    rw [← List.append_nil (textOf (l :: lines)), textOf_cons, List.append_nil] at begins
    rcases prefix_append begins with short | ⟨rest, rfl, later⟩
    · exact ⟨[], l, front, List.nil_prefix, short, rfl⟩
    cases rest with
    | nil => exact ⟨[], l, l.text, List.nil_prefix, List.prefix_rfl, List.append_nil _⟩
    | cons c rest =>
      obtain ⟨rfl, further⟩ := List.cons_prefix_cons.mp later
      obtain ⟨whole, l', cut, within, cut_within, rfl⟩ := ih further
      exact ⟨l :: whole, l', cut, List.cons_prefix_cons.mpr ⟨rfl, within⟩, cut_within, (textOf_cons l whole cut).symm⟩

/-- The parser gets through the text: there is something behind its first
newline, and it is not cut right after a colon. -/
def Readable (text : List Char) : Prop := 1 < (text.dropWhile (· ≠ '\n')).length ∧ text.getLast? ≠ some ':'

instance (text : List Char) : Decidable (Readable text) := inferInstanceAs (Decidable (_ ∧ _))

theorem dropWhile_to_newline {first : List Char} (free : '\n' ∉ first) (rest : List Char) :
    (first ++ '\n' :: rest).dropWhile (· ≠ '\n') = '\n' :: rest := by
  have other : ∀ c ∈ first, decide (c ≠ '\n') = true := by
    intro c member
    apply decide_eq_true
    intro newline
    exact free (newline ▸ member)
  rw [List.dropWhile_append_of_pos other]
  rfl

theorem text_of_lines {lines : List Line} {text : List Char} (inside : text <:+: textOf lines) (newline : '\n' ∈ text) :
    ∃ first whole l cut, '\n' ∉ first ∧ whole <:+: lines ∧ cut <+: Line.text l ∧
      text = first ++ '\n' :: (textOf whole ++ cut) := by
  obtain ⟨first, rest, rfl, free⟩ := List.eq_append_cons_of_mem newline
  obtain ⟨before, after, split⟩ := inside
  have here : (before ++ first) ++ '\n' :: (rest ++ after) = textOf lines := by
    rw [← split]
    simp
  obtain ⟨later, suffix, same⟩ := lines_after here
  obtain ⟨whole, l, cut, within, cut_within, rfl⟩ := lines_before ⟨after, same⟩
  exact ⟨first, whole, l, cut, free, within.isInfix.trans suffix.isInfix, cut_within, rfl⟩

theorem textOf_last (lines : List Line) : ∀ c ∈ (textOf lines).getLast?, c = '\n' := by
  induction lines with
  | nil => simp [textOf]
  | cons l lines ih =>
    rw [← List.append_nil (textOf (l :: lines)), textOf_cons, List.append_nil, List.getLast?_append, List.getLast?_cons]
    intro c last
    cases here : (textOf lines).getLast? with
    | none =>
      rw [here] at last
      exact (Option.some.inj last).symm
    | some d =>
      rw [here] at last
      exact (Option.some.inj last).symm.trans (ih d here)

theorem last_colon (first : List Char) (whole : List Line) (cut : List Char) :
    (first ++ '\n' :: (textOf whole ++ cut)).getLast? = some ':' ↔ cut.getLast? = some ':' := by
  have other : ∀ c ∈ (first ++ '\n' :: textOf whole).getLast?, c ≠ ':' := by
    intro c last
    rw [List.getLast?_append, List.getLast?_cons, Option.some_or] at last
    have newline : c = '\n' := by
      cases here : (textOf whole).getLast? with
      | none =>
        rw [here] at last
        exact (Option.some.inj last).symm
      | some d =>
        rw [here] at last
        exact (Option.some.inj last).symm.trans (textOf_last whole d here)
    exact newline ▸ (by decide)
  rw [← List.cons_append, ← List.append_assoc, List.getLast?_append]
  cases last : cut.getLast? with
  | none =>
    rw [Option.none_or]
    exact iff_of_false (fun colon => other ':' colon rfl) nofun
  | some c => rw [Option.some_or]

theorem no_newline_error {text : List Char} (free : '\n' ∉ text) :
    Parser.readUntilNewline text = .error (.exception "Error parsing: *index >= data.size()") := by
  induction text with
  | nil => rfl
  | cons c text ih =>
    rw [List.mem_cons, not_or] at free
    rw [Parser.readUntilNewline, if_neg (Ne.symm free.1)]
    exact ih free.2

theorem Parser.parse_text (p : Parser F) {lines : List Line} {text : List Char} (inside : text <:+: textOf lines) :
    (Readable text ∧ ∃ whole, whole <:+: lines ∧ text.count '\n' = whole.length + 1 ∧
      p.parseObjLibsvm text = .ok (p.minibatchesOf whole)) ∨
    (¬ Readable text ∧ ∃ what, p.parseObjLibsvm text = .error (.exception what)) := by
  by_cases newline : '\n' ∈ text
  · obtain ⟨first, whole, l, cut, free, within, cut_within, rfl⟩ := text_of_lines inside newline
    have newlines : (first ++ '\n' :: (textOf whole ++ cut)).count '\n' = whole.length + 1 := by
      have cut_free : '\n' ∉ cut := fun member => l.newline_free (cut_within.subset member)
      rw [List.count_append, List.count_cons_self, List.count_append, textOf_newlines,
        List.count_eq_zero_of_not_mem free, List.count_eq_zero_of_not_mem cut_free, Nat.zero_add, Nat.add_zero]
    unfold Readable
    rw [dropWhile_to_newline free, ne_eq, last_colon, newlines]
    by_cases more : textOf whole ++ cut = []
    · right
      rw [more]
      refine ⟨by simp, "Error parsing: index >= data.size()", ?_⟩
      · unfold Parser.parseObjLibsvm
        rw [Parser.readUntilNewline_line free]
        rfl
    · have parsed := p.parseObjLibsvm_lines free whole l cut_within more
      have long : 1 < ('\n' :: (textOf whole ++ cut)).length := by
        have := List.length_pos_of_ne_nil more
        rw [List.length_cons]
        omega
      by_cases colon : cut.getLast? = some ':'
      · rw [if_pos colon] at parsed
        exact .inr ⟨fun readable => readable.2 colon, _, parsed⟩
      · rw [if_neg colon] at parsed
        exact .inl ⟨⟨long, colon⟩, whole, within, rfl, parsed⟩
  · right
    constructor
    · intro readable
      have dropped : text.dropWhile (· ≠ '\n') = [] := by
        apply List.dropWhile_eq_nil_iff.mpr
        intro c member
        apply decide_eq_true
        intro same
        exact newline (same ▸ member)
      unfold Readable at readable
      rw [dropped] at readable
      exact absurd readable.1 (by simp)
    · unfold Parser.parseObjLibsvm
      rw [no_newline_error newline]
      exact ⟨_, rfl⟩

theorem Parser.minibatchesOf_length (p : Parser F) (lines : List Line) :
    (p.minibatchesOf lines).length = lines.length / p.rows := by
  simp [Parser.minibatchesOf]

end Ranges

end S3IteratorLibsvm

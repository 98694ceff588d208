import Cirrus.S3IteratorLibsvm
import Mathlib.Data.List.Nodup

/-!
Which lines of a file the libsvm iterator delivers of a range of its bytes. A
place in the file is told by the newlines before it, so the lines of a range
are those between two counts, wherever the range cuts the text.
-/
namespace S3IteratorLibsvm
open SparseLR
variable {F : Type}

section Positions

def newlinesBefore (file : List Char) (x : Nat) : Nat := (file.take x).count '\n'

def startOf (lines : List Line) (j : Nat) : Nat := (textOf (lines.take j)).length

theorem newlinesBefore_mono (file : List Char) {x y : Nat} (le : x ≤ y) : newlinesBefore file x ≤ newlinesBefore file y :=
  (List.take_prefix_take_left le).sublist.count_le '\n'

theorem newlinesBefore_succ (file : List Char) (x : Nat) : newlinesBefore file (x + 1) ≤ newlinesBefore file x + 1 := by
  have one : file[x]?.toList.count '\n' ≤ 1 := by
    have few : file[x]?.toList.length ≤ 1 := by cases file[x]? <;> simp
    exact Nat.le_trans List.count_le_length few
  rw [newlinesBefore, List.take_add_one, List.count_append]
  exact Nat.add_le_add_left one _

theorem newlinesBefore_le (lines : List Line) (x : Nat) : newlinesBefore (textOf lines) x ≤ lines.length := by
  rw [← textOf_newlines lines]
  exact (List.take_sublist x _).count_le '\n'

theorem startOf_succ (l : Line) (lines : List Line) (j : Nat) :
    startOf (l :: lines) (j + 1) = l.text.length + 1 + startOf lines j := by
  rw [startOf, List.take_succ_cons, ← List.append_nil (textOf _), textOf_cons, List.append_nil, List.length_append,
    List.length_cons, startOf]
  omega

theorem newlinesBefore_iff {lines : List Line} {j : Nat} (inside : j < lines.length) (x : Nat) :
    j < newlinesBefore (textOf lines) x ↔ startOf lines (j + 1) ≤ x := by
  induction lines generalizing j x with
  | nil => exact absurd inside (Nat.not_lt_zero j)
  | cons l lines ih =>
    rw [startOf_succ, newlinesBefore, ← List.append_nil (textOf (l :: lines)), textOf_cons, List.append_nil]
    rcases Nat.lt_or_ge l.text.length x with past | within
    · obtain ⟨k, rfl⟩ : ∃ k, x = l.text.length + (k + 1) := ⟨x - l.text.length - 1, by omega⟩
      rw [List.take_length_add_append, List.take_succ_cons, List.count_append, List.count_cons_self,
        List.count_eq_zero_of_not_mem l.newline_free, Nat.zero_add]
      cases j with
      | zero =>
        have first : startOf lines 0 = 0 := rfl
        omega
      | succ j =>
        have later := ih (Nat.lt_of_succ_lt_succ inside) k
        rw [newlinesBefore] at later
        omega
    · have none : ((l.text ++ '\n' :: textOf lines).take x).count '\n' = 0 := by
        rw [List.take_append_of_le_length within]
        exact List.count_eq_zero_of_not_mem fun member => l.newline_free (List.mem_of_mem_take member)
      rw [none]
      omega

end Positions

section Parsing

theorem text_at {lines : List Line} {before text after : List Char} (split : before ++ (text ++ after) = textOf lines)
    (newline : '\n' ∈ text) :
    ∃ first l cut, '\n' ∉ first ∧ cut <+: Line.text l ∧
      text = first ++ '\n' :: (textOf ((lines.drop (before.count '\n' + 1)).take (text.count '\n' - 1)) ++ cut) := by
  obtain ⟨first, rest, rfl, free⟩ := List.eq_append_cons_of_mem newline
  have here : (before ++ first) ++ '\n' :: (rest ++ after) = textOf lines := by
    rw [← split]
    simp
  obtain ⟨later, suffix, same⟩ := lines_after here
  obtain ⟨whole, l, cut, within, cut_within, rfl⟩ := lines_before ⟨after, same⟩
  have cut_free : '\n' ∉ cut := fun member => l.newline_free (cut_within.subset member)
  have newlines := congrArg (List.count '\n') here
  rw [List.count_append, List.count_append, List.count_cons_self, same, textOf_newlines, textOf_newlines,
    List.count_eq_zero_of_not_mem free] at newlines
  have whole_length : (first ++ '\n' :: (textOf whole ++ cut)).count '\n' - 1 = whole.length := by
    rw [List.count_append, List.count_cons_self, List.count_append, textOf_newlines, List.count_eq_zero_of_not_mem free,
      List.count_eq_zero_of_not_mem cut_free]
    omega
  have later_lines : lines.drop (before.count '\n' + 1) = later := by
    rw [List.suffix_iff_eq_drop.mp suffix, show lines.length - later.length = before.count '\n' + 1 by omega]
  refine ⟨first, l, cut, free, cut_within, ?_⟩
  rw [whole_length, later_lines, ← List.prefix_iff_eq_take.mp within]

theorem Parser.parse_at (p : Parser F) {lines : List Line} {before text after : List Char}
    (split : before ++ (text ++ after) = textOf lines) {result : List (SparseDataset F)}
    (parsed : p.parseObjLibsvm text = .ok result) :
    '\n' ∈ text ∧ result = p.minibatchesOf ((lines.drop (before.count '\n' + 1)).take (text.count '\n' - 1)) := by
  have newline : '\n' ∈ text := by
    by_contra free
    unfold Parser.parseObjLibsvm at parsed
    rw [no_newline_error free] at parsed
    cases parsed
  refine ⟨newline, ?_⟩
  obtain ⟨first, l, cut, free, begins, same⟩ := text_at split newline
  generalize (lines.drop (before.count '\n' + 1)).take (text.count '\n' - 1) = whole at same ⊢
  subst same
  by_cases more : textOf whole ++ cut = []
  · unfold Parser.parseObjLibsvm at parsed
    rw [Parser.readUntilNewline_line free, more] at parsed
    cases parsed
  · rw [p.parseObjLibsvm_lines free whole l begins more] at parsed
    split at parsed
    next => cases parsed
    next => exact (Except.ok.inj parsed).symm

def samplesOf (minibatch : SparseDataset F) : List (Sample F) := minibatch.data.zip minibatch.labels

theorem samplesOf_dataset (samples : List (Sample F)) : samplesOf (dataset samples) = samples := by
  rw [samplesOf, dataset, List.zip_map']
  exact List.map_id samples

theorem Parser.minibatchesOf_samples (p : Parser F) (lines : List Line) :
    (p.minibatchesOf lines).flatMap samplesOf =
      (lines.take (lines.length / p.rows * p.rows)).map (Line.sample p.sscanf) := by
  induction count : lines.length using Nat.strongRecOn generalizing lines with
  | ind n ih =>
    have positive := p.rows_pos
    rcases Nat.lt_or_ge lines.length p.rows with few | enough
    · rw [p.minibatchesOf_short few, ← count, Nat.div_eq_of_lt few, Nat.zero_mul]
      rfl
    · have shorter : (lines.drop p.rows).length < n := by
        rw [List.length_drop]
        omega
      have later := ih _ shorter (lines.drop p.rows) rfl
      rw [p.minibatchesOf_long enough, List.flatMap_cons, samplesOf_dataset, later, ← List.map_append, List.length_drop,
        ← count, Nat.div_eq_sub_div positive enough, Nat.succ_mul, Nat.add_comm _ p.rows, List.take_add]

theorem Parser.minibatchesOf_rows (p : Parser F) (lines : List Line) :
    ∀ minibatch ∈ p.minibatchesOf lines, minibatch.data.length = p.rows ∧ minibatch.labels.length = p.rows := by
  intro minibatch member
  obtain ⟨k, below, rfl⟩ := List.mem_map.mp member
  have full : k * p.rows + p.rows ≤ lines.length := by
    have := Nat.mul_le_mul_right p.rows (Nat.succ_le_of_lt (List.mem_range.mp below))
    rw [Nat.succ_mul] at this
    exact Nat.le_trans this (Nat.div_mul_le_self _ _)
  have length : ((lines.drop (k * p.rows)).take p.rows).length = p.rows := by
    rw [List.length_take, List.length_drop]
    omega
  simp only [dataset, List.length_map, length, and_self]

end Parsing

section Ranges
variable (it : Iterator F)

/-- How many lines behind the first newline of a range are complete. -/
def Iterator.complete (range : Range) : Nat :=
  newlinesBefore it.file (range.2.toNat + 1) - (newlinesBefore it.file range.1.toNat + 1)

/-- The lines that are delivered of a range, as many of the complete ones as fill minibatches. -/
def Iterator.delivered (range : Range) : List Nat :=
  List.range' (newlinesBefore it.file range.1.toNat + 1) (it.complete range / it.rows * it.rows)

/-- What a range delivers: each row is that of a complete line of the range, and
of the lines of the range only three kinds are left out. -/
structure Delivers (lines : List Line) (range : Range) (result : List (SparseDataset F)) : Prop where
  samples : (result.flatMap samplesOf).map some =
    (it.delivered range).map fun j => lines[j]?.map (Line.sample it.sscanf)
  rows : ∀ minibatch ∈ result, minibatch.data.length = it.rows ∧ minibatch.labels.length = it.rows
  complete : ∀ j ∈ it.delivered range, range.1.toNat < startOf lines j ∧ startOf lines (j + 1) ≤ range.2.toNat + 1
  /-- The line with the first byte, the one that the end cuts, and too few lines for a minibatch behind those delivered. -/
  others : ∃ few : List Nat, few.length < it.rows ∧ (∀ j ∈ few, ∀ k ∈ it.delivered range, k < j) ∧
    ∀ j < lines.length, startOf lines j ≤ range.2.toNat → range.1.toNat < startOf lines (j + 1) →
      j ∈ it.delivered range ∨ startOf lines j ≤ range.1.toNat ∨ range.2.toNat + 1 < startOf lines (j + 1) ∨ j ∈ few

variable {it}

theorem slice_map {A C : Type} (f : A → C) {l : List A} {first n : Nat} (inside : first + n ≤ l.length) :
    (((l.drop first).take n).map f).map some = (List.range' first n).map fun j => l[j]?.map f := by
  induction n generalizing first with
  | zero => simp
  | succ n ih =>
    have room : first < l.length := by omega
    rw [List.drop_eq_getElem_cons room, List.take_succ_cons, List.range'_succ, List.map_cons, List.map_cons, List.map_cons,
      ih (by omega), List.getElem?_eq_getElem room]
    rfl

theorem mem_delivered {range : Range} {j : Nat} (member : j ∈ it.delivered range) :
    newlinesBefore it.file range.1.toNat < j ∧ j < newlinesBefore it.file (range.2.toNat + 1) := by
  obtain ⟨above, below⟩ := List.mem_range'_1.mp member
  have whole := Nat.div_mul_le_self (it.complete range) it.rows
  unfold Iterator.complete at whole below
  omega

theorem fetched_text {range : Range} {text : List Char} (got : it.s3GetObjectRange range = some text) :
    range.1.toNat ≤ range.2.toNat ∧ it.file.take (range.2.toNat + 1) = it.file.take range.1.toNat ++ text := by
  unfold Iterator.s3GetObjectRange at got
  split at got
  next valid =>
    cases got
    have order := UInt64.le_iff_toNat_le.mp valid.1
    have width : range.1.toNat + (range.2.toNat + 1 - range.1.toNat) = range.2.toNat + 1 := by omega
    refine ⟨order, ?_⟩
    rw [← List.take_add, width]
  next => cases got

variable {lines : List Line} (file : it.file = textOf lines)
include file

theorem parsed_lines {range : Range} {text : List Char} (got : it.s3GetObjectRange range = some text)
    {result : List (SparseDataset F)} (parsed : it.parseObjLibsvm text = .ok result) :
    newlinesBefore it.file range.1.toNat + 1 + it.complete range ≤ lines.length ∧
      result = it.minibatchesOf ((lines.drop (newlinesBefore it.file range.1.toNat + 1)).take (it.complete range)) := by
  obtain ⟨_, front⟩ := fetched_text got
  have split : it.file.take range.1.toNat ++ (text ++ it.file.drop (range.2.toNat + 1)) = textOf lines := by
    rw [← List.append_assoc, ← front, List.take_append_drop, file]
  obtain ⟨newline, same⟩ := it.parse_at split parsed
  have some_newline := List.count_pos_iff.mpr newline
  have fits := newlinesBefore_le lines (range.2.toNat + 1)
  have counted := congrArg (List.count '\n') front
  rw [← file] at fits
  rw [List.count_append] at counted
  change newlinesBefore it.file _ = newlinesBefore it.file _ + _ at counted
  have complete : it.complete range = text.count '\n' - 1 := by
    unfold Iterator.complete
    omega
  constructor
  · omega
  · rw [complete]
    exact same

theorem delivered_complete {range : Range} {j : Nat} (member : j ∈ it.delivered range) :
    range.1.toNat < startOf lines j ∧ startOf lines (j + 1) ≤ range.2.toNat + 1 := by
  obtain ⟨above, below⟩ := mem_delivered member
  rw [file] at above below
  have inside : j < lines.length := Nat.lt_of_lt_of_le below (newlinesBefore_le lines _)
  constructor
  · cases j with
    | zero => exact absurd above (Nat.not_lt_zero _)
    | succ i =>
      by_contra early
      have counted := (newlinesBefore_iff (Nat.lt_of_succ_lt inside) range.1.toNat).mpr (Nat.not_lt.mp early)
      omega
  · exact (newlinesBefore_iff inside _).mp below

theorem line_counted {range : Range} {j : Nat} (inside : j < lines.length)
    (ends : range.1.toNat < startOf lines (j + 1)) :
    startOf lines j ≤ range.1.toNat ∨ range.2.toNat + 1 < startOf lines (j + 1) ∨
      (newlinesBefore it.file range.1.toNat < j ∧ j < newlinesBefore it.file (range.2.toNat + 1)) := by
  have after := newlinesBefore_iff inside range.1.toNat
  have before := newlinesBefore_iff inside (range.2.toNat + 1)
  rw [← file] at after before
  by_cases first : j ≤ newlinesBefore it.file range.1.toNat
  · -- the line before it has ended, unless there is none
    left
    cases j with
    | zero => exact Nat.zero_le _
    | succ i =>
      have previous := newlinesBefore_iff (Nat.lt_of_succ_lt inside) range.1.toNat
      rw [← file] at previous
      exact previous.mp (by omega)
  · by_cases cut : range.2.toNat + 1 < startOf lines (j + 1)
    · exact .inr (.inl cut)
    · exact .inr (.inr ⟨by omega, before.mpr (by omega)⟩)

theorem delivers_range {range : Range} {text : List Char} (got : it.s3GetObjectRange range = some text)
    {result : List (SparseDataset F)} (parsed : it.parseObjLibsvm text = .ok result) : Delivers it lines range result := by
  obtain ⟨fits, same⟩ := parsed_lines file got parsed
  have whole := Nat.div_mul_le_self (it.complete range) it.rows
  have divided := Nat.div_add_mod' (it.complete range) it.rows
  have length : ((lines.drop (newlinesBefore it.file range.1.toNat + 1)).take (it.complete range)).length =
      it.complete range := by
    rw [List.length_take, List.length_drop]
    omega
  subst same
  refine ⟨?_, it.minibatchesOf_rows _, fun j => delivered_complete file, ?_⟩
  · rw [it.minibatchesOf_samples, length, List.take_take, Nat.min_eq_left whole, slice_map _ (by omega), Iterator.delivered]
  · refine ⟨List.range' (newlinesBefore it.file range.1.toNat + 1 + it.complete range / it.rows * it.rows)
      (it.complete range % it.rows), ?_, ?_, ?_⟩
    · rw [List.length_range']
      exact Nat.mod_lt _ it.rows_pos
    · intro j left k delivered
      have above := (List.mem_range'_1.mp left).1
      have below := (List.mem_range'_1.mp delivered).2
      omega
    · intro j inside _ ends
      rcases line_counted file inside ends with first | cut | ⟨above, below⟩
      · exact .inr (.inl first)
      · exact .inr (.inr (.inl cut))
      · unfold Iterator.delivered
        unfold Iterator.complete at divided ⊢
        rw [List.mem_range'_1, List.mem_range'_1]
        omega

end Ranges

section Pass

/-- The ranges of a pass over the file, up to where it has come: the first one begins at the front of it. -/
inductive Pass (it : Iterator F) : List Range → UInt64 → Prop where
  | first {curIndex after : UInt64} {sampled : Int32} {range : Range}
      (chosen : it.getFileRange curIndex sampled = some (range, after)) (front : range.1 = 0)
      (got : (it.s3GetObjectRange range).isSome) : Pass it [range] after
  | next {ranges : List Range} {curIndex after : UInt64} {sampled : Int32} {range : Range}
      (before : Pass it ranges curIndex) (chosen : it.getFileRange curIndex sampled = some (range, after))
      (goes_on : range.1 ≠ 0) (got : (it.s3GetObjectRange range).isSome) : Pass it (ranges ++ [range]) after

variable {it : Iterator F}

theorem getFileRange_sequential (sequential : it.randomAccess = false) {curIndex after : UInt64} {sampled : Int32}
    {range : Range} (chosen : it.getFileRange curIndex sampled = some (range, after)) :
    (it.fileSize < fetchSize ∧ range.1 = 0) ∨
      (¬ it.fileSize < fetchSize ∧ after = range.2 ∧ (range.1 = 0 ∨ range.1 = curIndex)) := by
  unfold Iterator.getFileRange at chosen
  rw [sequential] at chosen
  split at chosen
  next small =>
    cases chosen
    exact .inl ⟨small, rfl⟩
  next large =>
    right
    rw [if_neg Bool.false_ne_true] at chosen
    cases chosen
    refine ⟨large, rfl, ?_⟩
    dsimp only
    split
    next => exact .inl rfl
    next => exact .inr rfl

theorem Pass.ordered (sequential : it.randomAccess = false) {ranges : List Range} {after : UInt64}
    (pass : Pass it ranges after) :
    ranges.Pairwise (fun earlier later => earlier.2.toNat ≤ later.1.toNat) ∧
      (¬ it.fileSize < fetchSize → ∀ range ∈ ranges, range.2.toNat ≤ after.toNat) := by
  induction pass with
  | first chosen front got =>
    refine ⟨List.pairwise_singleton _ _, ?_⟩
    intro large range member
    rw [List.mem_singleton.mp member]
    rcases getFileRange_sequential sequential chosen with ⟨small, _⟩ | ⟨_, rfl, _⟩
    · exact absurd small large
    · exact Nat.le_refl _
  | next before chosen goes_on got ih =>
    obtain ⟨ordered, ended⟩ := ih
    obtain ⟨text, got⟩ := Option.isSome_iff_exists.mp got
    have order := (fetched_text got).1
    rcases getFileRange_sequential sequential chosen with ⟨_, zero⟩ | ⟨large, rfl, zero | rfl⟩
    · exact absurd zero goes_on
    · exact absurd zero goes_on
    · constructor
      · rw [List.pairwise_append]
        refine ⟨ordered, List.pairwise_singleton _ _, ?_⟩
        intro earlier member later last
        rw [List.mem_singleton.mp last]
        exact ended large earlier member
      · intro _ range member
        rcases List.mem_append.mp member with earlier | last
        · exact Nat.le_trans (ended large range earlier) order
        · rw [List.mem_singleton.mp last]

theorem delivered_disjoint {earlier later : Range} (apart : earlier.2.toNat ≤ later.1.toNat) :
    List.Disjoint (it.delivered earlier) (it.delivered later) := by
  intro j first second
  have below := (mem_delivered first).2
  have above := (mem_delivered second).1
  have ended := newlinesBefore_mono it.file (Nat.add_le_add_right apart 1)
  have one := newlinesBefore_succ it.file later.1.toNat
  omega

theorem Pass.delivers_once (sequential : it.randomAccess = false) {ranges : List Range} {after : UInt64}
    (pass : Pass it ranges after) : (ranges.flatMap it.delivered).Nodup := by
  rw [List.nodup_flatMap]
  refine ⟨fun range _ => List.nodup_range', ?_⟩
  exact (pass.ordered sequential).1.imp delivered_disjoint

end Pass

/-- Whatever range is parsed, its rows are those of its complete lines; and a pass delivers no line twice. -/
theorem lines_delivered_once (it : Iterator F) (lines : List Line) (file : it.file = textOf lines) :
    (∀ curIndex sampled range after text result, it.getFileRange curIndex sampled = some (range, after) →
      it.s3GetObjectRange range = some text → it.parseObjLibsvm text = .ok result → Delivers it lines range result) ∧
    (it.randomAccess = false → ∀ ranges after, Pass it ranges after → (ranges.flatMap it.delivered).Nodup) := by
  constructor
  · intro curIndex sampled range after text result _ got parsed
    exact delivers_range file got parsed
  · intro sequential ranges after pass
    exact pass.delivers_once sequential

section Three

/-- `7` -/
def seven : Line := ⟨['7'], [], [], by decide, List.all_eq_true.mp rfl, Line.zero.trailing_blank⟩

/-- `3 4:30` -/
def thirty : Line where
  label := ['3']
  pairs := [⟨[' '], ['4'], ['3', '0'], some_space, space_blank, by decide, List.all_eq_true.mp rfl, by decide,
    List.all_eq_true.mp rfl⟩]
  trailing := []
  some_label := by decide
  label_digits := List.all_eq_true.mp rfl
  trailing_blank := Line.zero.trailing_blank

/-- `0 41:5` -/
def five : Line where
  label := ['0']
  pairs := [⟨[' '], ['4', '1'], ['5'], some_space, space_blank, by decide, List.all_eq_true.mp rfl, by decide,
    List.all_eq_true.mp rfl⟩]
  trailing := []
  some_label := Line.zero.some_label
  label_digits := Line.zero.label_digits
  trailing_blank := Line.zero.trailing_blank

def threeLines : Iterator Nat where
  sscanf := integers
  minibatchRows := 2
  positive := by decide
  file := textOf [seven, thirty, five]
  fileSize := 16
  randomAccess := false

theorem lines_delivered_once_three :
    Delivers threeLines [seven, thirty, five] (0, 16) [dataset [([(4, 30)], 3), ([(41, 5)], 0)]] ∧
      (threeLines.delivered (0, 16)) = [1, 2] := by
  have parsed : threeLines.parseObjLibsvm (['7'] ++ '\n' :: (textOf [thirty, five] ++ [])) =
      .ok [dataset [([(4, 30)], 3), ([(41, 5)], 0)]] :=
    threeLines.parseObjLibsvm_lines (by decide) [thirty, five] .zero List.nil_prefix (by decide)
  exact ⟨(lines_delivered_once threeLines [seven, thirty, five] rfl).1 0 0 (0, 16) 0 _ _ rfl rfl parsed, by decide⟩

end Three

end S3IteratorLibsvm

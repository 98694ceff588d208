import Cirrus.CsvReader
import Cirrus.Lib.Strsep

/-!
The buffers of fixed size that a line is copied into before `strsep` cuts it
into tokens. Each parser has its own test of the length of a line, and all of
them write one character less than their buffer has.
-/
namespace LineBuffers
open CString Strsep
open CsvReader (tokens maxStrSize)

def cString (text : List Char) : List Char := text.takeWhile (· ≠ nul)

theorem cString_clean (text : List Char) : nul ∉ cString text := by
  intro member
  simpa using List.mem_takeWhile_imp member

theorem cString_length (text : List Char) : (cString text).length ≤ text.length :=
  (List.takeWhile_sublist _).length_le

theorem strncpy_cString (n : Nat) (text : List Char) : strncpy n (cString text) = strncpy n text := by
  induction n generalizing text with
  | zero => rfl
  | succ n ih =>
    cases text with
    | nil => rfl
    | cons c rest =>
      by_cases here : c = nul
      · rw [cString, List.takeWhile_cons_of_neg (by simpa using here), strncpy, strncpy, if_pos here]
      · have later := ih rest
        rw [cString] at later
        rw [cString, List.takeWhile_cons_of_pos (by simpa using here), strncpy, strncpy, if_neg here, if_neg here, later]

section Copies
variable {delimiter : List Char} {stop : Nat → Bool}

theorem tokens_cons (delimiter : List Char) (c : Char) (rest : List Char) :
    tokens delimiter (c :: rest) =
      if c ∈ delimiter then [] :: tokens delimiter rest else longer c (tokens delimiter rest) := by
  rw [tokens]
  split
  · rfl
  · cases tokens delimiter rest <;> rfl

theorem tokens_some (delimiter text : List Char) : tokens delimiter text ≠ [] := by
  cases text with
  | nil => exact List.cons_ne_nil _ _
  | cons c rest =>
    rw [tokens_cons]
    split
    · exact List.cons_ne_nil _ _
    · cases tokens delimiter rest <;> exact List.cons_ne_nil _ _

theorem tokens_extent (delimiter text : List Char) : extent (tokens delimiter text) = text.length + 1 := by
  induction text with
  | nil => rfl
  | cons c rest ih =>
    rw [tokens_cons]
    split
    · simp [ih]
      omega
    · simp [longer_extent c (tokens_some delimiter rest), ih]

theorem tokens_clean (clean : nul ∉ delimiter) (text : List Char) :
    (∀ token ∈ tokens delimiter text, nul ∉ token) ↔ nul ∉ text := by
  induction text with
  | nil => simp [tokens]
  | cons c rest ih =>
    rw [tokens_cons, List.mem_cons, not_or, ← ih]
    split
    next separates =>
      have other : nul ≠ c := fun same => clean (same ▸ separates)
      simp [other]
    next => rw [nul_longer c (tokens_some delimiter rest), ne_comm]

theorem upTo_some (delimiter : List Char) (stop : Nat → Bool) (visited : Nat) (text : List Char) :
    upTo stop visited (tokens delimiter text) ≠ [] := by
  cases found : tokens delimiter text with
  | nil => exact (tokens_some delimiter text found).elim
  | cons token more =>
    unfold upTo
    split <;> exact List.cons_ne_nil _ _

theorem loop_copied (clean : nul ∉ delimiter) {stop : Nat → Bool} {n visited : Nat} {line : List Char}
    (free : ∀ token ∈ upTo stop visited (tokens delimiter line), nul ∉ token)
    (room : extent (upTo stop visited (tokens delimiter line)) ≤ n) (stale : List Char) :
    loop delimiter stop visited (strncpy n line ++ stale) = some (upTo stop visited (tokens delimiter line)) := by
  induction line generalizing n visited with
  | nil =>
    cases n with
    | zero =>
      obtain ⟨k, size⟩ := extent_succ (upTo_some delimiter stop visited [])
      omega
    | succ n => simp [strncpy, tokens, upTo]
  | cons c rest ih =>
    obtain ⟨m, rfl⟩ : ∃ m, n = m + 1 := by
      obtain ⟨k, size⟩ := extent_succ (upTo_some delimiter stop visited (c :: rest))
      exact ⟨n - 1, by omega⟩
    rw [tokens_cons] at free room ⊢
    by_cases separates : c ∈ delimiter
    · have other : c ≠ nul := fun same => clean (same ▸ separates)
      rw [if_pos separates, upTo] at free room ⊢
      rw [strncpy, if_neg other, List.cons_append, loop_delimiter other separates]
      split
      next => rfl
      next more =>
        rw [if_neg more] at free room
        simp only [extent_cons, List.length_nil] at room
        rw [ih (List.forall_mem_cons.mp free).2 (by omega)]
        rfl
    · rw [if_neg separates, upTo_longer c (tokens_some delimiter rest)] at free room ⊢
      obtain ⟨other, free⟩ := (nul_longer c (upTo_some delimiter stop visited rest)).mp free
      rw [longer_extent c (upTo_some delimiter stop visited rest)] at room
      rw [strncpy, if_neg other, List.cons_append, loop_inside other separates, ih free (by omega)]
      rfl

/-- The loop visits the tokens of the whole line, whatever was in the buffer, exactly where these have no null
character and leave room for the character behind the last of them. -/
theorem loop_iff (stop : Nat → Bool) (clean : nul ∉ delimiter) (other : ∃ c, c ≠ nul ∧ c ∉ delimiter) (n : Nat) (line : List Char) :
    (∀ previous : List Char, previous.length = n + 1 →
      loop delimiter stop 0 (copied n line previous) = some (upTo stop 0 (tokens delimiter line))) ↔
    (∀ token ∈ upTo stop 0 (tokens delimiter line), nul ∉ token) ∧
      extent (upTo stop 0 (tokens delimiter line)) ≤ n := by
  constructor
  · intro visits
    obtain ⟨c, some_character, inside⟩ := other
    obtain ⟨some_token, free, last, at_last, ends⟩ := loop_some (visits (List.replicate (n + 1) c) List.length_replicate)
    refine ⟨free, ?_⟩
    by_contra long
    have stale : ∀ k, n ≤ k → ∀ d, (copied n line (List.replicate (n + 1) c))[k]? = some d → d = c := by
      intro k past d here
      rw [copied, List.getElem?_append_right (by rw [strncpy_length]; exact past), List.drop_replicate,
        List.getElem?_replicate] at here
      split at here <;> simp_all
    cases stale _ (by omega) last at_last
    exact ends.elim some_character inside
  · rintro ⟨free, room⟩ previous _
    exact loop_copied clean free room (previous.drop n)

theorem loop_all_iff (clean : nul ∉ delimiter) (other : ∃ c, c ≠ nul ∧ c ∉ delimiter) (n : Nat) (line : List Char) :
    (∀ previous : List Char, previous.length = n + 1 →
      loop delimiter (fun _ => false) 0 (copied n line previous) = some (tokens delimiter line)) ↔
    nul ∉ line ∧ line.length < n := by
  have whole := loop_iff (fun _ => false) clean other n line
  rw [upTo_never, tokens_clean clean, tokens_extent] at whole
  exact whole

theorem loop_short (stop : Nat → Bool) (clean : nul ∉ delimiter) {n : Nat} {line : List Char} (short : line.length < n) (previous : List Char) :
    loop delimiter stop 0 (copied n line previous) = some (upTo stop 0 (tokens delimiter (cString line))) := by
  have length := cString_length line
  have room : extent (upTo stop 0 (tokens delimiter (cString line))) ≤ n := by
    have most := upTo_extent stop 0 (tokens delimiter (cString line))
    rw [tokens_extent] at most
    omega
  have free : ∀ token ∈ upTo stop 0 (tokens delimiter (cString line)), nul ∉ token := fun token member =>
    (tokens_clean clean (cString line)).mpr (cString_clean line) token ((upTo_sublist _).mem member)
  have loops := loop_copied clean free room (previous.drop n)
  rwa [strncpy_cString] at loops

/-- The columns of a line of `process_lines` are what its loop visits in the buffer. -/
theorem parseLine_visits {F : Type} (p : CsvReader.Parser F) (clean : nul ∉ p.delimiter) {line : List Char}
    (short : line.length + 1 < maxStrSize) (previous : List Char) :
    p.parseLine line = (loop p.delimiter (fun k => p.limitCols ≠ 0 ∧ k = p.limitCols) 0
      (copied (maxStrSize - 1) line previous)).bind fun columns =>
        match columns.map p.stringTo with
        | label :: sample => some (sample, label)
        | [] => none := by
  have few : p.limitCols = 0 ∨ 0 < p.limitCols := by omega
  rw [loop_short _ clean (Nat.lt_sub_of_add_lt short) previous, upTo_limit few, CsvReader.Parser.parseLine, if_pos short]
  rfl

end Copies

section Parsers

def rcv1StrSize : Nat := 20000

/-- The functions that copy a line into a buffer, with the delimiter they are given and the limit on the columns. -/
inductive LineParser
  | processLines (delimiter : List Char) (limitCols : Nat)
  | criteoSparse (delimiter : List Char)
  | criteoKaggleSparse (delimiter : List Char)
  | rcv1 (delimiter : List Char)
  | movielens
  | jester
  | netflix
  deriving DecidableEq

namespace LineParser

/-- The lines that pass the assertions, and that are not refused or passed over. -/
def Accepts : LineParser → List Char → Prop
  | processLines _ _, line => line.length < maxStrSize
  | criteoSparse _, line => ¬ maxStrSize < line.length
  | criteoKaggleSparse _, line => ¬ maxStrSize < line.length
  | rcv1 _, line => ¬ rcv1StrSize < line.length
  | movielens, line => line.length < maxStrSize - 1
  | jester, line => ¬ line.length < 3 ∧ line.length < maxStrSize - 1
  | netflix, line => line.length < maxStrSize

def size : LineParser → Nat
  | rcv1 _ => rcv1StrSize
  | _ => maxStrSize

/-- `delimiter.c_str()` -/
def separators : LineParser → List Char
  | processLines delimiter _ | criteoSparse delimiter | criteoKaggleSparse delimiter | rcv1 delimiter => cString delimiter
  | movielens | jester | netflix => [',']

/-- After so many tokens no more are taken. The readers of ratings call `strsep` three times. -/
def stop : LineParser → Nat → Bool
  | processLines _ limitCols => fun k => limitCols ≠ 0 ∧ k = limitCols
  | criteoSparse _ | criteoKaggleSparse _ | rcv1 _ => fun _ => false
  | movielens | jester | netflix => fun k => k = 3

def columns (p : LineParser) (line : List Char) : List (List Char) := upTo p.stop 0 (tokens p.separators line)

def visits (p : LineParser) (previous line : List Char) : Option (List (List Char)) :=
  loop p.separators p.stop 0 (copied (p.size - 1) line previous)

end LineParser

/-- What the loop leaves in the buffer: a null character for each delimiter that it has met. -/
def overwritten (delimiter : List Char) : List Char → List Char
  | [] => []
  | c :: rest => if c = nul then c :: rest else (if c ∈ delimiter then nul else c) :: overwritten delimiter rest

/-- `rcv1_line` is a global variable: it is zero at first, and only the parser writes to it. -/
inductive Rcv1Line : List Char → Prop
  | zero : Rcv1Line (List.replicate rcv1StrSize nul)
  | parsed {rcv1Line : List Char} (delimiter line : List Char) (before : Rcv1Line rcv1Line) :
      Rcv1Line (overwritten delimiter (copied (rcv1StrSize - 1) line rcv1Line))

/-- The label of a line is copied once more, and cut into its classes. -/
def rcv1Classes (str2 label : List Char) : Option (List (List Char)) :=
  loop [','] (fun _ => false) 0 (copied (rcv1StrSize - 1) label str2)

def LineParser.Complete (p : LineParser) (line : List Char) : Prop :=
  match p with
  | .rcv1 _ => ∀ rcv1Line str2, Rcv1Line rcv1Line → str2.length = rcv1StrSize →
      p.visits rcv1Line line = some (p.columns line) ∧
        ∀ label ∈ (p.columns line).head?, rcv1Classes str2 label = some (tokens [','] label)
  | _ => ∀ previous, previous.length = p.size → p.visits previous line = some (p.columns line)

def LineParser.Fits (p : LineParser) (line : List Char) : Prop :=
  match p with
  | .processLines _ _ | .netflix => (∀ column ∈ p.columns line, nul ∉ column) ∧ extent (p.columns line) < maxStrSize
  | .criteoSparse _ | .criteoKaggleSparse _ => nul ∉ line ∧ line.length + 1 < maxStrSize
  | .rcv1 _ => nul ∉ line ∧ line.length < rcv1StrSize ∧ ∀ label ∈ (p.columns line).head?, label.length + 1 < rcv1StrSize
  | .movielens | .jester => ∀ column ∈ p.columns line, nul ∉ column

theorem overwritten_nul (delimiter : List Char) {s : List Char} {k : Nat} (here : s[k]? = some nul) :
    (overwritten delimiter s)[k]? = some nul := by
  induction s generalizing k with
  | nil => cases here
  | cons c rest ih =>
    unfold overwritten
    split
    next => exact here
    next other =>
      cases k with
      | zero => exact (other (by simpa using here)).elim
      | succ k => exact ih (by simpa using here)

theorem overwritten_length (delimiter s : List Char) : (overwritten delimiter s).length = s.length := by
  induction s with
  | nil => rfl
  | cons c rest ih =>
    unfold overwritten
    split <;> simp [ih]

theorem rcv1Line_last {rcv1Line : List Char} (reached : Rcv1Line rcv1Line) :
    rcv1Line.drop (rcv1StrSize - 1) = [nul] := by
  have last : rcv1Line.length = rcv1StrSize ∧ rcv1Line[rcv1StrSize - 1]? = some nul := by
    induction reached with
    | zero =>
      rw [List.length_replicate, List.getElem?_replicate, if_pos (by decide)]
      exact ⟨rfl, rfl⟩
    | @parsed rcv1Line delimiter line before ih =>
      obtain ⟨length, last⟩ := ih
      have written := strncpy_length (rcv1StrSize - 1) line
      rw [overwritten_length]
      refine ⟨?_, overwritten_nul delimiter ?_⟩
      · rw [copied, List.length_append, List.length_drop, written, length]
        rfl
      · rw [copied, List.getElem?_append_right (by omega), written, List.getElem?_drop]
        simpa using last
  obtain ⟨length, last⟩ := last
  obtain ⟨inside, here⟩ := List.getElem?_eq_some_iff.mp last
  rw [List.drop_eq_getElem_cons inside, here, List.drop_of_length_le (by rw [length]; decide)]

theorem separators_clean (p : LineParser) : nul ∉ p.separators := by
  cases p with
  | movielens | jester | netflix => decide
  | processLines | criteoSparse | criteoKaggleSparse | rcv1 => exact cString_clean _

theorem complete_iff_extent {p : LineParser} (other : ∃ c, c ≠ nul ∧ c ∉ p.separators) (own : p.size = maxStrSize)
    (line : List Char) :
    (∀ previous, previous.length = p.size → p.visits previous line = some (p.columns line)) ↔
      (∀ column ∈ p.columns line, nul ∉ column) ∧ extent (p.columns line) < maxStrSize := by
  have whole := loop_iff p.stop (separators_clean p) other (maxStrSize - 1) line
  unfold LineParser.visits
  rw [own]
  refine whole.trans (and_congr_right fun _ => ?_)
  exact Nat.lt_succ_iff.symm

theorem columns_of_unlimited {p : LineParser} (unlimited : p.stop = fun _ => false) (line : List Char) :
    p.columns line = tokens p.separators line := by
  rw [LineParser.columns, unlimited, upTo_never]

theorem columns_extent (p : LineParser) (line : List Char) : extent (p.columns line) ≤ line.length + 1 := by
  rw [← tokens_extent p.separators line]
  exact upTo_extent p.stop 0 (tokens p.separators line)

theorem rcv1_complete_iff {delimiter : List Char} (line : List Char) :
    (LineParser.rcv1 delimiter).Complete line ↔ (LineParser.rcv1 delimiter).Fits line := by
  have whole : (LineParser.rcv1 delimiter).columns line = tokens (cString delimiter) line := columns_of_unlimited rfl line
  have clean := cString_clean delimiter
  have label_iff (label : List Char) : (∀ str2 : List Char, str2.length = rcv1StrSize →
      rcv1Classes str2 label = some (tokens [','] label)) ↔ nul ∉ label ∧ label.length + 1 < rcv1StrSize :=
    (loop_all_iff (by decide) ⟨'x', by decide, by decide⟩ (rcv1StrSize - 1) label).trans
      (and_congr_right fun _ => Nat.lt_sub_iff_add_lt)
  unfold LineParser.Complete LineParser.Fits
  dsimp only
  constructor
  · intro complete
    obtain ⟨visited, _⟩ := complete _ (List.replicate rcv1StrSize nul) .zero List.length_replicate
    obtain ⟨_, free, last, at_last, _⟩ := loop_some visited
    have inside := (List.getElem?_eq_some_iff.mp at_last).1
    rw [whole] at free inside
    rw [tokens_clean clean] at free
    refine ⟨free, ?_, ?_⟩
    · rw [tokens_extent, copied, List.length_append, strncpy_length, List.length_drop, List.length_replicate] at inside
      change line.length + 1 - 1 < rcv1StrSize - 1 + (rcv1StrSize - (rcv1StrSize - 1)) at inside
      rwa [show rcv1StrSize - 1 + (rcv1StrSize - (rcv1StrSize - 1)) = rcv1StrSize by decide, Nat.add_sub_cancel] at inside
    · intro label first
      exact ((label_iff label).mp fun str2 sized => (complete _ str2 .zero sized).2 label first).2
  · rintro ⟨free, short, label_short⟩ rcv1Line str2 reached sized
    rw [← tokens_clean clean] at free
    constructor
    · have ended : copied (rcv1StrSize - 1) line rcv1Line = strncpy rcv1StrSize line ++ [] := by
        rw [copied, rcv1Line_last reached, strncpy_nul (Nat.le_sub_one_of_lt short), List.append_nil]
        rfl
      have room : extent (upTo (fun _ => false) 0 (tokens (cString delimiter) line)) ≤ rcv1StrSize := by
        rwa [upTo_never, tokens_extent]
      have free' : ∀ token ∈ upTo (fun _ => false) 0 (tokens (cString delimiter) line), nul ∉ token := by
        rwa [upTo_never]
      have loops := loop_copied clean free' room []
      rw [LineParser.visits, LineParser.size, ended]
      exact loops
    · intro label first
      have clean_label : nul ∉ label := by
        refine free label ?_
        rw [← whole]
        exact List.mem_of_mem_head? first
      exact (label_iff label).mpr ⟨clean_label, label_short label first⟩ str2 sized

/-- Where some character does not separate columns, an accepted line is visited whole, whatever was in the buffer,
exactly where its columns fit. -/
theorem complete_iff_fits (p : LineParser) (other : ∃ c, c ≠ nul ∧ c ∉ p.separators) (line : List Char)
    (accepted : p.Accepts line) : p.Complete line ↔ p.Fits line := by
  cases p with
  | rcv1 delimiter => exact rcv1_complete_iff line
  | processLines | netflix => exact complete_iff_extent other rfl line
  | criteoSparse delimiter | criteoKaggleSparse delimiter =>
    refine (complete_iff_extent other rfl line).trans ?_
    rw [columns_of_unlimited rfl, tokens_clean (separators_clean _), tokens_extent]
    rfl
  | movielens =>
    have most := columns_extent .movielens line
    exact (complete_iff_extent other rfl line).trans
      (and_iff_left (Nat.lt_of_le_of_lt most (Nat.add_lt_of_lt_sub accepted)))
  | jester =>
    have most := columns_extent .jester line
    exact (complete_iff_extent other rfl line).trans
      (and_iff_left (Nat.lt_of_le_of_lt most (Nat.add_lt_of_lt_sub accepted.2)))

theorem longest_line_whole : (LineParser.criteoKaggleSparse [',']).Complete (List.replicate 9998 'a') :=
  (complete_iff_fits _ ⟨'x', by decide, by decide⟩ _ (by rw [LineParser.Accepts, List.length_replicate]; decide)).mpr
    ⟨fun member => absurd (List.eq_of_mem_replicate member) (by decide), by rw [List.length_replicate]; decide⟩

/-- One character more is accepted, and copied without anything behind it. -/
theorem line_runs_on : (LineParser.criteoKaggleSparse [',']).Accepts (List.replicate 9999 'a') ∧
    ¬ (LineParser.criteoKaggleSparse [',']).Complete (List.replicate 9999 'a') := by
  refine ⟨by rw [LineParser.Accepts, List.length_replicate]; decide, ?_⟩
  intro complete
  obtain ⟨_, room⟩ := (complete_iff_extent ⟨'x', by decide, by decide⟩ rfl _).mp complete
  rw [columns_of_unlimited rfl, tokens_extent, List.length_replicate] at room
  exact absurd room (by decide)

end Parsers

end LineBuffers

import Mathlib.Data.List.Basic

/-
Text files that are read line by line. The last line may lack its newline: it
is returned all the same, with the end of the file met. Nothing here mentions a
particular program.
-/
namespace TextStream

/-- The characters up to a newline, and those after it if there is one. -/
def takeLine : List Char → List Char × Option (List Char)
  | [] => ([], none)
  | c :: rest => if c = '\n' then ([], some rest) else (c :: (takeLine rest).1, (takeLine rest).2)

def lines : List Char → List (List Char)
  | [] => []
  | c :: rest =>
    if c = '\n' then [] :: lines rest
    else
      match lines rest with
      | [] => [[c]]
      | l :: more => (c :: l) :: more

theorem lines_newline (rest : List Char) : lines ('\n' :: rest) = [] :: lines rest := by rw [lines, if_pos rfl]

theorem lines_cons {c : Char} (other : c ≠ '\n') (rest : List Char) :
    lines (c :: rest) = match lines rest with
      | [] => [[c]]
      | l :: more => (c :: l) :: more := by
  rw [lines, if_neg other]

theorem takeLine_isSome (text : List Char) : (takeLine text).2.isSome ↔ '\n' ∈ text := by
  induction text with
  | nil => simp [takeLine]
  | cons c rest ih =>
    by_cases newline : c = '\n'
    · simp [takeLine, newline]
    · simp [takeLine, newline, ih, Ne.symm newline]

def Terminated (text : List Char) : Prop := ∀ c, text.getLast? = some c → c = '\n'

instance (text : List Char) : Decidable (Terminated text) :=
  match h : text.getLast? with
  | none => isTrue fun _ found => by rw [h] at found; cases found
  | some c => decidable_of_iff (c = '\n') ⟨fun same _ found => by rw [h] at found; cases found; exact same,
      fun all => all c h⟩

theorem lines_of_newline {text line rest : List Char} (read : takeLine text = (line, some rest)) :
    lines text = line :: lines rest ∧ (Terminated rest ↔ Terminated text) := by
  induction text generalizing line with
  | nil => cases read
  | cons c tail ih =>
    unfold takeLine at read
    by_cases newline : c = '\n'
    · rw [if_pos newline] at read
      cases read
      rw [newline, lines_newline]
      refine ⟨rfl, ?_⟩
      unfold Terminated
      cases rest with
      | nil => simp
      | cons d more => simp
    · rw [if_neg newline] at read
      obtain ⟨first, second⟩ := Prod.mk.inj read
      obtain ⟨split, terminated⟩ := ih (Prod.ext rfl second)
      rw [lines_cons newline, split, ← first]
      refine ⟨rfl, terminated.trans ?_⟩
      unfold Terminated
      cases tail with
      | nil => cases second
      | cons d more => simp

theorem lines_of_end {text line : List Char} (read : takeLine text = (line, none)) :
    line = text ∧ (text ≠ [] → lines text = [text] ∧ ¬ Terminated text) := by
  induction text generalizing line with
  | nil =>
    cases read
    exact ⟨rfl, fun some_text => (some_text rfl).elim⟩
  | cons c tail ih =>
    unfold takeLine at read
    by_cases newline : c = '\n'
    · rw [if_pos newline] at read
      cases read
    · rw [if_neg newline] at read
      obtain ⟨first, second⟩ := Prod.mk.inj read
      obtain ⟨all, rest⟩ := ih (Prod.ext rfl second)
      refine ⟨by rw [← first]; exact congrArg _ all, fun _ => ?_⟩
      rw [lines_cons newline]
      cases tail with
      | nil => simp [lines, Terminated, newline]
      | cons d more =>
        obtain ⟨one, unterminated⟩ := rest (List.cons_ne_nil d more)
        rw [one]
        refine ⟨rfl, ?_⟩
        simpa [Terminated] using unterminated

theorem lines_intercalate {ls : List (List Char)} (free : ∀ l ∈ ls, '\n' ∉ l) (some_last : ∀ l ∈ ls.getLast?, l ≠ []) :
    lines (['\n'].intercalate ls) = ls := by
  have front : ∀ {line : List Char} (rest : List Char), '\n' ∉ line → lines (line ++ '\n' :: rest) = line :: lines rest := by
    intro line rest free
    induction line with
    | nil => exact lines_newline rest
    | cons c line ih =>
      rw [List.mem_cons, not_or] at free
      rw [List.cons_append, lines_cons (Ne.symm free.1), ih free.2]
  have single : ∀ {line : List Char}, '\n' ∉ line → line ≠ [] → lines line = [line] := by
    intro line free some_line
    induction line with
    | nil => exact (some_line rfl).elim
    | cons c line ih =>
      rw [List.mem_cons, not_or] at free
      rw [lines_cons (Ne.symm free.1)]
      cases line with
      | nil => rfl
      | cons d line => rw [ih free.2 (List.cons_ne_nil d line)]
  induction ls with
  | nil => rfl
  | cons l ls ih =>
    rw [List.forall_mem_cons] at free
    cases ls with
    | nil =>
      rw [List.intercalate_singleton]
      exact single free.1 (some_last l rfl)
    | cons next ls =>
      rw [List.intercalate_cons_cons, List.append_assoc, List.singleton_append, front _ free.1, ih free.2 some_last]

structure InputStream where
  rest : List Char
  eof : Bool := false
  fail : Bool := false
  deriving DecidableEq

namespace InputStream

/-- `getline`, with what `line` was before: a stream that is not good leaves it as it is. -/
def getline (fin : InputStream) (line : List Char) : List Char × InputStream :=
  if fin.eof ∨ fin.fail then (line, { fin with fail := true })
  else
    match takeLine fin.rest with
    | (text, some rest) => (text, { fin with rest })
    | (text, none) => (text, { rest := [], eof := true, fail := text = [] })

structure Proper (fin : InputStream) : Prop where
  failed : fin.fail = true → fin.eof = true
  ended : fin.eof = true → fin.rest = []

inductive Reads (fin : InputStream) : List Char × InputStream → Prop
  | line {text rest : List Char} (good : fin.eof = false) (split : lines fin.rest = text :: lines rest)
      (terminated : Terminated rest ↔ Terminated fin.rest) : Reads fin (text, { fin with rest })
  | last (good : fin.eof = false) (one : lines fin.rest = [fin.rest]) (unterminated : ¬ Terminated fin.rest) :
      Reads fin (fin.rest, { rest := [], eof := true, fail := false })
  | nothing {text : List Char} (none : fin.rest = []) : Reads fin (text, { rest := [], eof := true, fail := true })

theorem getline_reads {fin : InputStream} (proper : fin.Proper) (line : List Char) : Reads fin (fin.getline line) := by
  unfold getline
  split
  next bad =>
    have eof : fin.eof = true := bad.elim id proper.failed
    have none := proper.ended eof
    obtain ⟨rest, _, _⟩ := fin
    cases eof
    cases none
    exact .nothing rfl
  next good =>
    have eof : fin.eof = false := by simpa using fun h => good (.inl h)
    split
    next text rest read =>
      obtain ⟨split, terminated⟩ := lines_of_newline read
      exact .line eof split terminated
    next text read =>
      obtain ⟨rfl, more⟩ := lines_of_end read
      by_cases none : fin.rest = []
      · rw [decide_eq_true none]
        exact .nothing none
      · obtain ⟨one, unterminated⟩ := more none
        have some_text : decide (fin.rest = []) = false := decide_eq_false none
        rw [some_text]
        exact .last eof one unterminated

theorem Proper.reads {fin : InputStream} (proper : fin.Proper) {read : List Char × InputStream}
    (reads : Reads fin read) : read.2.Proper := by
  cases reads with
  | @line text rest good split terminated =>
    exact ⟨proper.failed, fun eof => by rw [good] at eof; cases eof⟩
  | last good one unterminated => exact ⟨nofun, fun _ => rfl⟩
  | nothing none => exact ⟨fun _ => rfl, fun _ => rfl⟩

theorem Proper.getline {fin fin' : InputStream} {old line : List Char} (proper : fin.Proper)
    (got : fin.getline old = (line, fin')) : fin'.Proper := by
  have kept := proper.reads (getline_reads proper old)
  rwa [got] at kept

theorem getline_terminated {fin fin' : InputStream} {old line : List Char} (proper : fin.Proper)
    (terminated : Terminated fin.rest) (got : fin.getline old = (line, fin')) :
    fin'.Proper ∧ Terminated fin'.rest ∧
      ((fin'.eof = true ∧ fin.rest = [] ∧ fin'.rest = []) ∨
        (fin.eof = false ∧ fin'.eof = false ∧ lines fin.rest = line :: lines fin'.rest)) := by
  have reads := getline_reads proper old
  have proper' := proper.reads reads
  rw [got] at reads proper'
  refine ⟨proper', ?_⟩
  cases reads with
  | line good split same => exact ⟨same.mpr terminated, .inr ⟨good, good, split⟩⟩
  | last good one unterminated => exact (unterminated terminated).elim
  | nothing none => exact ⟨nofun, .inl ⟨rfl, none, rfl⟩⟩

theorem read_line {fin fin' : InputStream} {old line : List Char} (proper : fin.Proper)
    (got : fin.getline old = (line, fin')) (read : fin'.fail = false) : lines fin.rest = line :: lines fin'.rest := by
  have reads := getline_reads proper old
  rw [got] at reads
  cases reads with
  | line good split terminated => exact split
  | last good one unterminated => exact one
  | nothing none => cases read

theorem read_none {fin fin' : InputStream} {old line : List Char} (proper : fin.Proper)
    (got : fin.getline old = (line, fin')) (none : fin'.fail = true) :
    lines fin'.rest = lines fin.rest ∧ fin'.eof = true := by
  have reads := getline_reads proper old
  rw [got] at reads
  cases reads with
  | @line text rest good split terminated =>
    have eof := proper.failed none
    rw [good] at eof
    cases eof
  | last good one unterminated => cases none
  | nothing empty => exact ⟨by rw [empty], rfl⟩

theorem eof_kept {fin fin' : InputStream} {old line : List Char} (proper : fin.Proper)
    (got : fin.getline old = (line, fin')) (eof : fin.eof = true) : fin'.eof = true := by
  have reads := getline_reads proper old
  rw [got] at reads
  cases reads with
  | line good split terminated =>
    rw [good] at eof
    cases eof
  | last good one unterminated => rfl
  | nothing none => rfl

theorem eof_meets {fin fin' : InputStream} {old line : List Char} (got : fin.getline old = (line, fin'))
    (before : fin.eof = false) (after : fin'.eof = true) : (takeLine fin.rest).2 = none := by
  unfold getline at got
  split at got
  · cases got
    rw [before] at after
    cases after
  · split at got
    next text rest read =>
      cases got
      rw [before] at after
      cases after
    next text read => rw [read]

end InputStream
end TextStream

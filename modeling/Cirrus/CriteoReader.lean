import Cirrus.Lib.TextStream
import Cirrus.Lib.Transition
import Mathlib.Algebra.Order.BigOperators.Group.Finset

/-!
`read_input_criteo_sparse_thread`: threads that read the lines of one file,
parse them into vectors of their own, and append these to the result. The lock
is held for a `getline` and for the final merge, and for nothing in between.
-/
namespace CriteoReader
open TextStream Transition
variable {I S Y : Type}

structure Reader (S Y : Type) where
  parse : List Char → S × Y
  limitLines : UInt64

/-- Where a thread is, with the number of the line it has: 0 where `getline` has read none. -/
inductive Place
  | reading
  | testingEof (number : Nat)
  | testingLimit (number : Nat)
  | parsing (number : Nat)
  | counting
  | merging
  | done
  deriving DecidableEq

/-- A thread with its local variables. `kept` is a history: the lines of `samples` and `labels`. -/
structure Thread (S Y : Type) where
  place : Place := .reading
  line : List Char := []
  samples : List S := []
  labels : List Y := []
  kept : List (Nat × List Char) := []

/-- `handed` and `keptRes` are histories: how many lines were read, and those of the results. -/
structure State (I S Y : Type) where
  fin : InputStream
  linesCount : UInt32 := 0
  threads : I → Thread S Y := fun _ => {}
  samplesRes : List S := []
  labelsRes : List Y := []
  handed : Nat := 0
  keptRes : List (Nat × List Char) := []

/-- The limit is reached. The count is compared only where it is not zero. -/
def Reader.limited (r : Reader S Y) (linesCount : UInt32) : Prop :=
  linesCount ≠ 0 ∧ r.limitLines ≤ linesCount.toUInt64

instance (r : Reader S Y) (linesCount : UInt32) : Decidable (r.limited linesCount) :=
  inferInstanceAs (Decidable (_ ∧ _))

section Steps
variable [DecidableEq I]

def Reader.step (r : Reader S Y) (s : State I S Y) (i : I) : Option (State I S Y) :=
  let t := s.threads i
  let moves (t : Thread S Y) (s : State I S Y) := { s with threads := Function.update s.threads i t }
  match t.place with
  | .reading =>
    let (line, fin) := s.fin.getline t.line
    let read := !fin.fail
    some (moves { t with place := .testingEof (if read then s.handed + 1 else 0), line }
      { s with fin, handed := if read then s.handed + 1 else s.handed })
  | .testingEof number => some (moves { t with place := if s.fin.eof then .merging else .testingLimit number } s)
  | .testingLimit number =>
    some (moves { t with place := if r.limited s.linesCount then .merging else .parsing number } s)
  | .parsing number =>
    let (features, label) := r.parse t.line
    some (moves { t with
      place := .counting
      samples := t.samples ++ [features]
      labels := t.labels ++ [label]
      kept := t.kept ++ [(number, t.line)] } s)
  | .counting => some (moves { t with place := .reading } { s with linesCount := s.linesCount + 1 })
  | .merging =>
    some (moves { t with place := .done, samples := [], labels := [], kept := [] } { s with
      labelsRes := s.labelsRes ++ t.labels
      samplesRes := s.samplesRes ++ t.samples
      keptRes := s.keptRes ++ t.kept })
  | .done => none

end Steps

def opened (header : Bool) (text : List Char) : InputStream :=
  if header then (InputStream.getline { rest := text } []).2 else { rest := text }

def dataLines (header : Bool) (text : List Char) : List (List Char) :=
  if header then (lines text).tail else lines text

def AtStart (header : Bool) (text : List Char) (s : State I S Y) : Prop := s = { fin := opened header text }

def Finished (s : State I S Y) : Prop := ∀ i, (s.threads i).place = .done

theorem opened_proper (header : Bool) (text : List Char) : (opened header text).Proper := by
  have fresh : InputStream.Proper { rest := text } := ⟨nofun, nofun⟩
  unfold opened
  split
  · exact fresh.reads (InputStream.getline_reads fresh [])
  · exact fresh

theorem opened_terminated {header : Bool} {text : List Char} (terminated : Terminated text) :
    Terminated (opened header text).rest := by
  have fresh : InputStream.Proper { rest := text } := ⟨nofun, nofun⟩
  unfold opened
  split
  · generalize got : InputStream.getline { rest := text } [] = read
    obtain ⟨line, fin⟩ := read
    exact (InputStream.getline_terminated fresh terminated got).2.1
  · exact terminated

theorem opened_lines (header : Bool) (text : List Char) :
    lines (opened header text).rest = dataLines header text := by
  have fresh : InputStream.Proper { rest := text } := ⟨nofun, nofun⟩
  have reads := InputStream.getline_reads fresh []
  unfold opened dataLines
  split
  · generalize InputStream.getline { rest := text } [] = read at reads ⊢
    cases reads with
    | line good split terminated =>
      rw [split]
      rfl
    | last good one unterminated =>
      rw [one]
      rfl
    | nothing none =>
      cases none
      rfl
  · rfl

inductive Moves [DecidableEq I] (r : Reader S Y) (s : State I S Y) (i : I) : State I S Y → Prop where
  | read {line : List Char} {fin : InputStream} (here : (s.threads i).place = .reading)
      (got : s.fin.getline (s.threads i).line = (line, fin)) (read : fin.fail = false) :
      Moves r s i { s with
        fin
        handed := s.handed + 1
        threads := Function.update s.threads i { s.threads i with place := .testingEof (s.handed + 1), line } }
  | readNone {line : List Char} {fin : InputStream} (here : (s.threads i).place = .reading)
      (got : s.fin.getline (s.threads i).line = (line, fin)) (none : fin.fail = true) :
      Moves r s i { s with
        fin
        threads := Function.update s.threads i { s.threads i with place := .testingEof 0, line } }
  | atEof {number : Nat} (here : (s.threads i).place = .testingEof number) (eof : s.fin.eof = true) :
      Moves r s i { s with threads := Function.update s.threads i { s.threads i with place := .merging } }
  | notEof {number : Nat} (here : (s.threads i).place = .testingEof number) (more : s.fin.eof = false) :
      Moves r s i { s with threads := Function.update s.threads i { s.threads i with place := .testingLimit number } }
  | limited {number : Nat} (here : (s.threads i).place = .testingLimit number) (limited : r.limited s.linesCount) :
      Moves r s i { s with threads := Function.update s.threads i { s.threads i with place := .merging } }
  | unlimited {number : Nat} (here : (s.threads i).place = .testingLimit number) (free : ¬ r.limited s.linesCount) :
      Moves r s i { s with threads := Function.update s.threads i { s.threads i with place := .parsing number } }
  | parse {number : Nat} (here : (s.threads i).place = .parsing number) :
      Moves r s i { s with threads := Function.update s.threads i { s.threads i with
        place := .counting
        samples := (s.threads i).samples ++ [(r.parse (s.threads i).line).1]
        labels := (s.threads i).labels ++ [(r.parse (s.threads i).line).2]
        kept := (s.threads i).kept ++ [(number, (s.threads i).line)] } }
  | count (here : (s.threads i).place = .counting) :
      Moves r s i { s with
        linesCount := s.linesCount + 1
        threads := Function.update s.threads i { s.threads i with place := .reading } }
  | merge (here : (s.threads i).place = .merging) :
      Moves r s i { s with
        labelsRes := s.labelsRes ++ (s.threads i).labels
        samplesRes := s.samplesRes ++ (s.threads i).samples
        keptRes := s.keptRes ++ (s.threads i).kept
        threads := Function.update s.threads i { s.threads i with place := .done, samples := [], labels := [], kept := [] } }

theorem step_moves [DecidableEq I] {r : Reader S Y} {s t : State I S Y} {i : I} (taken : r.step s i = some t) :
    Moves r s i t := by
  unfold Reader.step at taken
  dsimp only at taken
  split at taken
  case h_1 here =>
    obtain rfl := Option.some.inj taken
    generalize got : s.fin.getline (s.threads i).line = read
    obtain ⟨line, fin⟩ := read
    cases fails : fin.fail with
    | false => exact .read here got fails
    | true => exact .readNone here got fails
  case h_2 here =>
    obtain rfl := Option.some.inj taken
    split
    next eof => exact .atEof here eof
    next more => exact .notEof here (by simpa using more)
  case h_3 here =>
    obtain rfl := Option.some.inj taken
    split
    next limited => exact .limited here limited
    next free => exact .unlimited here free
  case h_4 here =>
    obtain rfl := Option.some.inj taken
    exact .parse here
  case h_5 here =>
    obtain rfl := Option.some.inj taken
    exact .count here
  case h_6 here =>
    obtain rfl := Option.some.inj taken
    exact .merge here
  case h_7 => cases taken

section Runs

def IsLine (data : List (List Char)) (e : Nat × List Char) : Prop := 1 ≤ e.1 ∧ data[e.1 - 1]? = some e.2

def Place.number : Place → Option Nat
  | testingEof number | testingLimit number | parsing number => some number
  | _ => none

structure Aligned (r : Reader S Y) (samples : List S) (labels : List Y) (kept : List (Nat × List Char)) : Prop where
  samples : samples = kept.map fun e => (r.parse e.2).1
  labels : labels = kept.map fun e => (r.parse e.2).2

theorem Aligned.append {r : Reader S Y} {samples samples' : List S} {labels labels' : List Y}
    {kept kept' : List (Nat × List Char)} (first : Aligned r samples labels kept) (second : Aligned r samples' labels' kept') :
    Aligned r (samples ++ samples') (labels ++ labels') (kept ++ kept') where
  samples := by rw [first.samples, second.samples, List.map_append]
  labels := by rw [first.labels, second.labels, List.map_append]

/-- What a thread has was read from the file, or it has nothing and the end was met. -/
structure ThreadFits (r : Reader S Y) (data : List (List Char)) (handed : Nat) (eof : Bool) (t : Thread S Y) : Prop where
  number : ∀ k, t.place.number = some k →
    (t.place = .testingEof 0 ∧ eof = true) ∨ (k ≤ handed ∧ IsLine data (k, t.line))
  kept : ∀ e ∈ t.kept, e.1 ≤ handed ∧ IsLine data e
  aligned : Aligned r t.samples t.labels t.kept

theorem ThreadFits.mono {r : Reader S Y} {data : List (List Char)} {handed handed' : Nat} {eof eof' : Bool}
    {t : Thread S Y} (fits : ThreadFits r data handed eof t) (more : handed ≤ handed') (later : eof = true → eof' = true) :
    ThreadFits r data handed' eof' t where
  number k has := (fits.number k has).imp (And.imp_right later) (And.imp_left fun below => below.trans more)
  kept e member := (fits.kept e member).imp_left fun below => below.trans more
  aligned := fits.aligned

/-- What holds in every run: the lines are read in order, and parsed into both vectors alike. -/
structure Fits (r : Reader S Y) (data : List (List Char)) (s : State I S Y) : Prop where
  proper : s.fin.Proper
  unread : lines s.fin.rest = data.drop s.handed
  handed : s.handed ≤ data.length
  threads : ∀ i, ThreadFits r data s.handed s.fin.eof (s.threads i)
  kept : ∀ e ∈ s.keptRes, e.1 ≤ s.handed ∧ IsLine data e
  aligned : Aligned r s.samplesRes s.labelsRes s.keptRes

theorem fits_start {r : Reader S Y} {header : Bool} {text : List Char} {s : State I S Y}
    (start : AtStart header text s) : Fits r (dataLines header text) s := by
  cases start
  exact ⟨opened_proper header text, opened_lines header text, Nat.zero_le _,
    fun _ => ⟨nofun, nofun, ⟨rfl, rfl⟩⟩, nofun, ⟨rfl, rfl⟩⟩

theorem fits_moves [DecidableEq I] {r : Reader S Y} {data : List (List Char)} {s t : State I S Y} {i : I}
    (fits : Fits r data s) (move : Moves r s i t) : Fits r data t := by
  obtain ⟨proper, unread, handed, threads, kept, aligned⟩ := fits
  cases move with
  | @read line fin here got read =>
    have proper' : fin.Proper := proper.getline got
    have next := InputStream.read_line proper got read
    rw [unread] at next
    have first : data[s.handed]? = some line := by
      rw [← List.head?_drop, next]
      rfl
    have inside := (List.getElem?_eq_some_iff.mp first).1
    have later : s.fin.eof = true → fin.eof = true := InputStream.eof_kept proper got
    refine ⟨proper', ?_, inside, ?_, fun e member => (kept e member).imp_left Nat.le_succ_of_le, aligned⟩
    · rw [← List.drop_drop, next]
      rfl
    · apply forall_update
      · exact fun j => (threads j).mono (Nat.le_succ _) later
      · refine ⟨?_, fun e member => ((threads i).kept e member).imp_left Nat.le_succ_of_le, (threads i).aligned⟩
        rintro k ⟨⟩
        exact .inr ⟨Nat.le_refl _, Nat.le_add_left 1 _, first⟩
  | @readNone line fin here got none =>
    have proper' : fin.Proper := proper.getline got
    obtain ⟨same, eof⟩ := InputStream.read_none proper got none
    refine ⟨proper', same.trans unread, handed, ?_, kept, aligned⟩
    apply forall_update
    · exact fun j => (threads j).mono (Nat.le_refl _) fun _ => eof
    · refine ⟨?_, (threads i).kept, (threads i).aligned⟩
      rintro k ⟨⟩
      exact .inl ⟨rfl, eof⟩
  | atEof here eof => exact ⟨proper, unread, handed, forall_update threads ⟨nofun, (threads i).kept, (threads i).aligned⟩, kept, aligned⟩
  | @notEof number here more =>
    refine ⟨proper, unread, handed, forall_update threads ⟨?_, (threads i).kept, (threads i).aligned⟩, kept, aligned⟩
    rintro k ⟨⟩
    rcases (threads i).number number (by rw [here]; rfl) with ⟨_, eof⟩ | line
    · rw [more] at eof
      cases eof
    · exact .inr line
  | limited here limited => exact ⟨proper, unread, handed, forall_update threads ⟨nofun, (threads i).kept, (threads i).aligned⟩, kept, aligned⟩
  | @unlimited number here free =>
    refine ⟨proper, unread, handed, forall_update threads ⟨?_, (threads i).kept, (threads i).aligned⟩, kept, aligned⟩
    rintro k ⟨⟩
    rcases (threads i).number number (by rw [here]; rfl) with ⟨other, _⟩ | line
    · rw [here] at other
      cases other
    · exact .inr line
  | @parse number here =>
    refine ⟨proper, unread, handed, forall_update threads ⟨nofun, ?_, ?_⟩, kept, aligned⟩
    · intro e member
      rcases List.mem_append.mp member with earlier | last
      · exact (threads i).kept e earlier
      · rw [List.mem_singleton.mp last]
        rcases (threads i).number number (by rw [here]; rfl) with ⟨other, _⟩ | line
        · rw [here] at other
          cases other
        · exact line
    · exact (threads i).aligned.append ⟨rfl, rfl⟩
  | count here => exact ⟨proper, unread, handed, forall_update threads ⟨nofun, (threads i).kept, (threads i).aligned⟩, kept, aligned⟩
  | merge here =>
    refine ⟨proper, unread, handed, forall_update threads ⟨nofun, nofun, ⟨rfl, rfl⟩⟩, ?_, aligned.append (threads i).aligned⟩
    intro e member
    rcases List.mem_append.mp member with earlier | last
    · exact kept e earlier
    · exact (threads i).kept e last

theorem fits_reachable [DecidableEq I] {r : Reader S Y} {header : Bool} {text : List Char}
    {permitted : State I S Y → I → Prop} {s : State I S Y}
    (reached : Reachable r.step (AtStart header text) permitted s) : Fits r (dataLines header text) s :=
  reached.invariant (fun _ start => fits_start start) fun _ _ _ fits _ taken => fits_moves fits (step_moves taken)

/-- How many steps a thread is from its end when no further line is read. -/
def Place.distance (eof : Bool) : Place → Nat
  | testingEof _ => if eof then 2 else 7
  | testingLimit _ => 6
  | parsing _ => 5
  | counting => 4
  | reading => 3
  | merging => 1
  | done => 0

theorem Place.distance_later {eof eof' : Bool} (later : eof = true → eof' = true) (p : Place) :
    p.distance eof' ≤ p.distance eof := by
  cases p with
  | testingEof number =>
    cases eof with
    | true => rw [later rfl]
    | false =>
      cases eof' with
      | true => exact Nat.le_of_ble_eq_true rfl
      | false => exact Nat.le_refl _
  | _ => exact Nat.le_refl _

variable [Fintype I]

def State.distance (s : State I S Y) : Nat :=
  5 * (lines s.fin.rest).length + ∑ i, (s.threads i).place.distance s.fin.eof

variable [DecidableEq I]

theorem distance_update {s t : State I S Y} {i : I} {new : Thread S Y} (threads : t.threads = Function.update s.threads i new)
    (later : s.fin.eof = true → t.fin.eof = true)
    (less : 5 * (lines t.fin.rest).length + new.place.distance t.fin.eof <
      5 * (lines s.fin.rest).length + (s.threads i).place.distance t.fin.eof) : t.distance < s.distance := by
  obtain ⟨others, before, after⟩ := sum_moves (fun u : Thread S Y => u.place.distance t.fin.eof) s.threads i
  have all : ∑ j, (s.threads j).place.distance t.fin.eof ≤ ∑ j, (s.threads j).place.distance s.fin.eof :=
    Finset.sum_le_sum fun j _ => (s.threads j).place.distance_later later
  rw [State.distance, State.distance, threads, after]
  omega

theorem moves_lowers {r : Reader S Y} {s t : State I S Y} {i : I} (proper : s.fin.Proper) (move : Moves r s i t) :
    t.distance < s.distance := by
  cases move with
  | @read line fin here got read =>
    apply distance_update rfl (InputStream.eof_kept proper got)
    simp only [here, InputStream.read_line proper got read, Place.distance, List.length_cons]
    split <;> omega
  | @readNone line fin here got none =>
    obtain ⟨same, eof⟩ := InputStream.read_none proper got none
    apply distance_update rfl (fun _ => eof)
    simp [here, same, eof, Place.distance]
  | atEof here eof => exact distance_update rfl id (by simp [here, eof, Place.distance])
  | notEof here more => exact distance_update rfl id (by simp [here, more, Place.distance])
  | limited here limited => exact distance_update rfl id (by simp [here, Place.distance])
  | unlimited here free => exact distance_update rfl id (by simp [here, Place.distance])
  | parse here => exact distance_update rfl id (by simp [here, Place.distance])
  | count here => exact distance_update rfl id (by simp [here, Place.distance])
  | merge here => exact distance_update rfl id (by simp [here, Place.distance])

omit [Fintype I] in
theorem goes_on {r : Reader S Y} {s : State I S Y} {i : I} (busy : (s.threads i).place ≠ .done) : (r.step s i).isSome := by
  unfold Reader.step
  dsimp only
  split
  case h_7 here => exact (busy here).elim
  all_goals rfl

/-- No run goes on for ever, and each can go on until all threads are done. -/
theorem runs_end {r : Reader S Y} {header : Bool} {text : List Char} {s : State I S Y}
    (reached : Reachable r.step (AtStart header text) anyStep s) :
    (∀ labels t, follow r.step s labels = some t → labels.length ≤ s.distance) ∧
    ∃ labels t, follow r.step s labels = some t ∧ Finished t := by
  refine follow_ends State.distance ?_ ?_ (fits_reachable reached)
  · intro s i t fits taken
    have move := step_moves taken
    exact ⟨fits_moves fits move, moves_lowers fits.proper move⟩
  · intro s _ unfinished
    obtain ⟨i, busy⟩ := not_forall.mp unfinished
    exact ⟨i, goes_on busy⟩

end Runs
end CriteoReader

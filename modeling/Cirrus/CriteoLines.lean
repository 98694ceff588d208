import Cirrus.CriteoReader
import Mathlib.Algebra.Order.Group.Multiset
import Mathlib.Data.List.Range
import Mathlib.Tactic.Abel

/-!
Which lines the parallel reader of Criteo files returns. A line is kept only if
the end of the file has not been met by any thread before its own thread looks,
and the limit is enforced by a count that is behind the lines that were read.
-/
namespace CriteoReader
open TextStream Transition
variable {I S Y : Type}

def Place.Untested (limit : Nat) : Place → Prop
  | testingEof k => 1 ≤ k ∧ k ≤ limit
  | _ => False

instance (limit : Nat) (p : Place) : Decidable (p.Untested limit) := by
  unfold Place.Untested
  split <;> infer_instance

/-- The steps that do not lose a line or keep one too many: the end of the file is met only when no
thread still has to test one of the first lines for it, the last line among these has its newline,
and a line past the limit is tested against the count only when it has reached the limit. -/
def Reader.InTime (r : Reader S Y) (s : State I S Y) (i : I) : Prop :=
  match (s.threads i).place with
  | .reading => (takeLine s.fin.rest).2 = none →
      (s.fin.rest = [] ∨ r.limitLines.toNat ≤ s.handed) ∧ ∀ j, ¬ (s.threads j).place.Untested r.limitLines.toNat
  | .testingLimit k => r.limitLines.toNat < k → r.limited s.linesCount
  | _ => True

instance [Fintype I] (r : Reader S Y) (s : State I S Y) (i : I) : Decidable (r.InTime s i) := by
  unfold Reader.InTime
  split <;> infer_instance

/-- One pair for each of the first lines up to the limit, and nothing else. -/
structure ReadOnce (r : Reader S Y) (data : List (List Char)) (s : State I S Y) : Prop where
  together : s.samplesRes.length = s.labelsRes.length
  lines : (s.samplesRes.zip s.labelsRes).Perm ((data.take r.limitLines.toNat).map r.parse)

namespace Place

def wanted (limit : Nat) (p : Place) : List Nat := p.number.toList.filter fun k => 1 ≤ k ∧ k ≤ limit

def counts : Place → Nat
  | counting => 1
  | _ => 0

end Place

def Thread.numbers (t : Thread S Y) : List Nat := t.kept.map Prod.fst

def firstNumbers (n : Nat) : List Nat := (List.range n).map (· + 1)

section Runs
variable [Fintype I]

def State.inFlight (limit : Nat) (s : State I S Y) : Multiset Nat := ∑ i, ((s.threads i).place.wanted limit : Multiset Nat)

def State.kept (s : State I S Y) : Multiset Nat :=
  ∑ i, ((s.threads i).numbers : Multiset Nat) + (s.keptRes.map Prod.fst : List Nat)

/-- A thread parses only first lines, has none of them untested at the end, and stops when all are read. -/
structure OnTime (limit handed : Nat) (eof : Bool) (t : Thread S Y) : Prop where
  passed : ∀ k, t.place = .parsing k → k ≤ limit
  untested : eof = true → ¬ t.place.Untested limit
  stopped : t.place = .merging ∨ t.place = .done → eof = true ∨ limit ≤ handed
  merged : t.place = .done → t.kept = []

/-- Each of the first lines that were read is on its way or kept. -/
structure Complete (limit : Nat) (s : State I S Y) : Prop where
  lines : s.inFlight limit + s.kept = firstNumbers (min s.handed limit)
  counted : ∃ count : Nat, s.linesCount = UInt32.ofNat count ∧
    count + ∑ i, (s.threads i).place.counts = s.kept.card
  threads : ∀ i, OnTime limit s.handed s.fin.eof (s.threads i)

variable [DecidableEq I]

theorem firstNumbers_succ (handed limit : Nat) :
    (firstNumbers (min (handed + 1) limit) : Multiset Nat) =
      ([handed + 1].filter fun k => 1 ≤ k ∧ k ≤ limit : List Nat) + firstNumbers (min handed limit) := by
  rcases Nat.lt_or_ge handed limit with below | past
  · rw [Nat.min_eq_left below, Nat.min_eq_left (Nat.le_of_lt below), firstNumbers, List.range_succ, List.map_append,
      List.filter_cons_of_pos (by simp; omega), ← firstNumbers, ← Multiset.coe_add]
    exact add_comm _ _
  · rw [Nat.min_eq_right past, Nat.min_eq_right (by omega), List.filter_cons_of_neg (by simp; omega)]
    simp

/-- The count is behind what is kept, so a first line is never tested against a count that has reached the limit. -/
theorem Complete.not_limited {r : Reader S Y} {s : State I S Y} (complete : Complete r.limitLines.toNat s) {i : I} {k : Nat}
    (here : (s.threads i).place = .testingLimit k) (positive : 1 ≤ k) (wanted : k ≤ r.limitLines.toNat) :
    ¬ r.limited s.linesCount := by
  rintro ⟨_, reached⟩
  obtain ⟨count, value, number⟩ := complete.counted
  obtain ⟨others, flight, _⟩ := sum_moves (fun t : Thread S Y => (t.place.wanted r.limitLines.toNat : Multiset Nat)) s.threads i
  have one : (s.threads i).place.wanted r.limitLines.toNat = [k] := by
    rw [here]
    simp [Place.wanted, Place.number, positive, wanted]
  have all := congrArg Multiset.card complete.lines
  rw [State.inFlight, flight, one] at all
  simp only [Multiset.card_add, Multiset.coe_card, List.length_singleton, firstNumbers, List.length_map,
    List.length_range] at all
  rw [UInt64.le_iff_toNat_le, UInt32.toNat_toUInt64, value, UInt32.toNat_ofNat'] at reached
  have small := Nat.mod_le count (2 ^ 32)
  omega

theorem lines_update {limit : Nat} {s t : State I S Y} {i : I} {new : Thread S Y} (complete : Complete limit s)
    (threads : t.threads = Function.update s.threads i new)
    (change : (firstNumbers (min s.handed limit) : Multiset Nat) +
        (new.place.wanted limit + (new.numbers + (t.keptRes.map Prod.fst : List Nat))) =
      firstNumbers (min t.handed limit) +
        ((s.threads i).place.wanted limit + ((s.threads i).numbers + (s.keptRes.map Prod.fst : List Nat)))) :
    t.inFlight limit + t.kept = firstNumbers (min t.handed limit) := by
  have lines := complete.lines
  obtain ⟨flight, before, after⟩ := sum_moves (fun t : Thread S Y => (t.place.wanted limit : Multiset Nat)) s.threads i
  obtain ⟨numbers, before', after'⟩ := sum_moves (fun t : Thread S Y => (t.numbers : Multiset Nat)) s.threads i
  rw [State.inFlight, State.kept, before, before'] at lines
  rw [State.inFlight, State.kept, threads, after, after']
  apply add_left_cancel (a := (firstNumbers (min s.handed limit) : Multiset Nat))
  calc _ = (firstNumbers (min s.handed limit) : Multiset Nat) +
        (new.place.wanted limit + (new.numbers + (t.keptRes.map Prod.fst : List Nat))) + (flight + numbers) := by abel
    _ = _ := by
      rw [change, ← lines]
      abel

theorem counted_update {limit : Nat} {s t : State I S Y} {i : I} {new : Thread S Y} (complete : Complete limit s)
    (threads : t.threads = Function.update s.threads i new) (grown : Nat)
    (value : t.linesCount = s.linesCount + UInt32.ofNat grown)
    (change : grown + new.place.counts + ((s.threads i).numbers.length + s.keptRes.length) =
      (s.threads i).place.counts + (new.numbers.length + t.keptRes.length)) :
    ∃ count : Nat, t.linesCount = UInt32.ofNat count ∧ count + ∑ i, (t.threads i).place.counts = t.kept.card := by
  obtain ⟨count, known, number⟩ := complete.counted
  obtain ⟨counting, before, after⟩ := sum_moves (fun t : Thread S Y => t.place.counts) s.threads i
  obtain ⟨numbers, before', after'⟩ := sum_moves (fun t : Thread S Y => (t.numbers : Multiset Nat)) s.threads i
  refine ⟨count + grown, by rw [value, known, ← UInt32.ofNat_add], ?_⟩
  rw [State.kept, before, before'] at number
  rw [State.kept, threads, after, after']
  simp only [Multiset.card_add, Multiset.coe_card, List.length_map] at number ⊢
  omega

theorem complete_inside {limit : Nat} {s : State I S Y} {i : I} {place : Place} (complete : Complete limit s)
    (wanted : place.wanted limit = (s.threads i).place.wanted limit) (counts : place.counts = (s.threads i).place.counts)
    (onTime : OnTime limit s.handed s.fin.eof { s.threads i with place }) :
    Complete limit { s with threads := Function.update s.threads i { s.threads i with place } } := by
  refine ⟨lines_update complete rfl ?_, counted_update complete rfl 0 ?_ ?_, forall_update complete.threads onTime⟩
  · rw [wanted]
    rfl
  · exact (UInt32.add_zero _).symm
  · rw [counts]
    simp [Thread.numbers]

theorem wanted_of_number {limit k : Nat} {p : Place} (number : p.number = some k) (other : ¬ (1 ≤ k ∧ k ≤ limit)) :
    p.wanted limit = [] := by
  simp only [Place.wanted, number, Option.toList_some]
  rw [List.filter_cons_of_neg (by simpa using other), List.filter_nil]

theorem onTime_later {limit handed handed' : Nat} {eof eof' : Bool} {t : Thread S Y} (onTime : OnTime limit handed eof t)
    (more : handed ≤ handed') (later : eof = true → eof' = true)
    (untested : eof' = true → ¬ t.place.Untested limit) : OnTime limit handed' eof' t where
  passed := onTime.passed
  untested := untested
  stopped ends := (onTime.stopped ends).imp later fun all => all.trans more
  merged := onTime.merged

theorem complete_moves {r : Reader S Y} {data : List (List Char)} {s t : State I S Y} {i : I}
    (fits : Fits r data s) (complete : Complete r.limitLines.toNat s) (inTime : r.InTime s i) (move : Moves r s i t) :
    Complete r.limitLines.toNat t := by
  have line : ∀ {k : Nat}, (s.threads i).place.number = some k → (s.threads i).place ≠ .testingEof 0 →
      1 ≤ k ∧ k ≤ s.handed := by
    intro k number other
    rcases (fits.threads i).number k number with ⟨same, _⟩ | ⟨below, positive, _⟩
    · exact (other same).elim
    · exact ⟨positive, below⟩
  cases move with
  | @read text fin here got read =>
    have split := InputStream.read_line fits.proper got read
    have good : s.fin.eof = false := by
      by_contra eof
      rw [fits.proper.ended (by simpa using eof)] at split
      cases split
    have meets : fin.eof = true → (s.fin.rest = [] ∨ r.limitLines.toNat ≤ s.handed) ∧
        ∀ j, ¬ (s.threads j).place.Untested r.limitLines.toNat := by
      intro eof
      unfold Reader.InTime at inTime
      rw [here] at inTime
      exact inTime (InputStream.eof_meets got good eof)
    refine ⟨lines_update complete rfl ?_, counted_update complete rfl 0 ?_ ?_, ?_⟩
    · have none : Place.reading.wanted r.limitLines.toNat = [] := rfl
      have one : (Place.testingEof (s.handed + 1)).wanted r.limitLines.toNat =
          [s.handed + 1].filter fun k => 1 ≤ k ∧ k ≤ r.limitLines.toNat := rfl
      rw [here, none, one, firstNumbers_succ]
      simp only [Thread.numbers, Multiset.coe_nil]
      abel
    · exact (UInt32.add_zero _).symm
    · simp only [Thread.numbers, here, Place.counts]
    · apply forall_update
      · exact fun j => onTime_later (complete.threads j) (Nat.le_succ _) (by rw [good]; nofun) fun eof => (meets eof).2 j
      · refine ⟨nofun, ?_, nofun, nofun⟩
        rintro eof ⟨_, below⟩
        rcases (meets eof).1 with empty | all
        · rw [empty] at split
          cases split
        · omega
  | @readNone text fin here got none =>
    obtain ⟨_, eof⟩ := InputStream.read_none fits.proper got none
    refine ⟨lines_update complete rfl ?_, counted_update complete rfl 0 ?_ ?_, ?_⟩
    · rw [here]
      rfl
    · exact (UInt32.add_zero _).symm
    · simp only [Thread.numbers, here, Place.counts]
    · apply forall_update
      · intro j
        refine onTime_later (complete.threads j) (Nat.le_refl _) (fun _ => eof) fun _ => ?_
        cases before : s.fin.eof with
        | true => exact (complete.threads j).untested before
        | false =>
          unfold Reader.InTime at inTime
          rw [here] at inTime
          exact (inTime (InputStream.eof_meets got before eof)).2 j
      · refine ⟨nofun, ?_, nofun, nofun⟩
        rintro _ ⟨positive, _⟩
        cases positive
  | @atEof number here eof =>
    apply complete_inside complete
    · have untested := (complete.threads i).untested eof
      rw [here] at untested ⊢
      exact (wanted_of_number rfl untested).symm
    · rw [here]
      rfl
    · exact ⟨nofun, nofun, fun _ => .inl eof, nofun⟩
  | @notEof number here more =>
    apply complete_inside complete
    · rw [here]
      rfl
    · rw [here]
      rfl
    · exact ⟨nofun, nofun, nofun, nofun⟩
  | @limited number here limited =>
    obtain ⟨positive, below⟩ := line (by rw [here]; rfl) (by rw [here]; nofun)
    have past : r.limitLines.toNat < number := by
      by_contra wanted
      exact complete.not_limited here positive (not_lt.mp wanted) limited
    apply complete_inside complete
    · rw [here]
      exact (wanted_of_number rfl (by omega)).symm
    · rw [here]
      rfl
    · exact ⟨nofun, nofun, fun _ => .inr (by omega), nofun⟩
  | @unlimited number here free =>
    have wanted : number ≤ r.limitLines.toNat := by
      by_contra past
      unfold Reader.InTime at inTime
      rw [here] at inTime
      exact free (inTime (not_le.mp past))
    apply complete_inside complete
    · rw [here]
      rfl
    · rw [here]
      rfl
    · refine ⟨?_, nofun, nofun, nofun⟩
      rintro k ⟨⟩
      exact wanted
  | @parse number here =>
    obtain ⟨positive, below⟩ := line (by rw [here]; rfl) (by rw [here]; nofun)
    have wanted := (complete.threads i).passed number here
    refine ⟨lines_update complete rfl ?_, counted_update complete rfl 0 ?_ ?_,
      forall_update complete.threads ⟨nofun, nofun, nofun, nofun⟩⟩
    · have one : (s.threads i).place.wanted r.limitLines.toNat = [number] := by
        rw [here]
        simp [Place.wanted, Place.number, positive, wanted]
      have none : Place.counting.wanted r.limitLines.toNat = [] := rfl
      rw [one, none]
      simp only [Thread.numbers, List.map_append, List.map_singleton, ← Multiset.coe_add, Multiset.coe_nil]
      abel
    · exact (UInt32.add_zero _).symm
    · simp only [Thread.numbers, here, Place.counts, List.length_map, List.length_append, List.length_singleton]
      omega
  | count here =>
    refine ⟨lines_update complete rfl ?_, counted_update complete rfl 1 ?_ ?_,
      forall_update complete.threads ⟨nofun, nofun, nofun, nofun⟩⟩
    · rw [here]
      rfl
    · rfl
    · simp only [Thread.numbers, here, Place.counts]
  | merge here =>
    refine ⟨lines_update complete rfl ?_, counted_update complete rfl 0 ?_ ?_,
      forall_update complete.threads ⟨nofun, nofun, fun _ => (complete.threads i).stopped (.inl here), fun _ => rfl⟩⟩
    · have none : Place.done.wanted r.limitLines.toNat = [] := rfl
      have none' : Place.merging.wanted r.limitLines.toNat = [] := rfl
      rw [here, none, none']
      simp only [Thread.numbers, List.map_append, List.map_nil, ← Multiset.coe_add, Multiset.coe_nil]
      abel
    · exact (UInt32.add_zero _).symm
    · simp only [Thread.numbers, here, Place.counts, List.length_map, List.length_append, List.length_nil]
      omega

omit [DecidableEq I] in
theorem complete_start {header : Bool} {text : List Char} {limit : Nat} {s : State I S Y}
    (start : AtStart header text s) : Complete limit s := by
  cases start
  refine ⟨?_, ⟨0, rfl, ?_⟩, fun _ => ⟨nofun, fun _ => id, nofun, nofun⟩⟩
  · simp [State.inFlight, State.kept, Place.wanted, Place.number, Thread.numbers, firstNumbers]
  · simp [State.kept, Place.counts, Thread.numbers]

theorem complete_reachable {r : Reader S Y} {header : Bool} {text : List Char} {s : State I S Y}
    (reached : Reachable r.step (AtStart header text) r.InTime s) :
    Fits r (dataLines header text) s ∧ Complete r.limitLines.toNat s := by
  apply reached.invariant
  · exact fun _ start => ⟨fits_start start, complete_start start⟩
  · rintro _ _ _ ⟨fits, complete⟩ inTime taken
    exact ⟨fits_moves fits (step_moves taken), complete_moves fits complete inTime (step_moves taken)⟩

omit [Fintype I] in
theorem terminated_moves {r : Reader S Y} {s t : State I S Y} {i : I} (proper : s.fin.Proper)
    (terminated : Terminated s.fin.rest) (move : Moves r s i t) : Terminated t.fin.rest := by
  cases move with
  | read here got | readNone here got => exact (InputStream.getline_terminated proper terminated got).2.1
  | _ => exact terminated

omit [DecidableEq I] in
theorem Complete.limited {r : Reader S Y} {s : State I S Y} (complete : Complete r.limitLines.toNat s)
    (positive : 0 < r.limitLines.toNat) (small : r.limitLines.toNat < 2 ^ 32) (all : r.limitLines.toNat ≤ s.handed)
    (idle : ∀ i, (s.threads i).place.wanted r.limitLines.toNat = [] ∧ (s.threads i).place.counts = 0) :
    r.limited s.linesCount := by
  obtain ⟨count, value, number⟩ := complete.counted
  have kept := congrArg Multiset.card complete.lines
  rw [State.inFlight, Nat.min_eq_right all] at kept
  simp only [(idle _).1, Multiset.coe_nil, Finset.sum_const_zero, zero_add, Multiset.coe_card, firstNumbers,
    List.length_map, List.length_range] at kept
  simp only [(idle _).2, Finset.sum_const_zero, add_zero] at number
  have same : count = r.limitLines.toNat := number.trans kept
  have toNat : s.linesCount.toNat = r.limitLines.toNat := by
    rw [value, UInt32.toNat_ofNat', same, Nat.mod_eq_of_lt small]
  constructor
  · intro zero
    rw [zero, UInt32.toNat_zero] at toNat
    omega
  · rw [UInt64.le_iff_toNat_le, UInt32.toNat_toUInt64, toNat]

omit [Fintype I] in
theorem terminated_reachable {r : Reader S Y} {header : Bool} {text : List Char} {permitted : State I S Y → I → Prop}
    {s : State I S Y} (terminated : Terminated text) (reached : Reachable r.step (AtStart header text) permitted s) :
    Terminated s.fin.rest := by
  have kept : Fits r (dataLines header text) s ∧ Terminated s.fin.rest := by
    apply reached.invariant
    · intro s start
      refine ⟨fits_start start, ?_⟩
      cases start
      exact opened_terminated terminated
    · rintro s i t ⟨fits, terminated⟩ _ taken
      have move := step_moves taken
      exact ⟨fits_moves fits move, terminated_moves fits.proper terminated move⟩
  exact kept.2

/-- The thread is done, about to read, or has a line past the limit. -/
def Place.Idle (limit : Nat) (p : Place) : Prop := p = .done ∨ p = .reading ∨ ∃ k, p = .testingLimit k ∧ limit < k

theorem Place.Idle.nothing {limit : Nat} {p : Place} (idle : p.Idle limit) : p.wanted limit = [] ∧ p.counts = 0 := by
  rcases idle with rfl | rfl | ⟨k, rfl, past⟩
  · exact ⟨rfl, rfl⟩
  · exact ⟨rfl, rfl⟩
  · exact ⟨wanted_of_number rfl (by omega), rfl⟩

theorem Place.Idle.tested {limit : Nat} {p : Place} (idle : p.Idle limit) : ¬ p.Untested limit := by
  rcases idle with rfl | rfl | ⟨k, rfl, past⟩ <;> exact id

omit [Fintype I] [DecidableEq I] in
theorem inTime_busy {r : Reader S Y} {s : State I S Y} {i : I} (busy : ¬ (s.threads i).place.Idle r.limitLines.toNat) :
    r.InTime s i := by
  unfold Reader.InTime
  split
  next here => exact (busy (.inr (.inl here))).elim
  next k here => exact fun past => (busy (.inr (.inr ⟨k, here, past⟩))).elim
  next => trivial

omit [DecidableEq I] in
/-- When all threads are idle the first lines are kept and counted, so that a line past the limit finds it reached. -/
theorem inTime_past {r : Reader S Y} {data : List (List Char)} {s : State I S Y} {i : I} {k : Nat} (fits : Fits r data s)
    (complete : Complete r.limitLines.toNat s)
    (counts : data.length ≤ r.limitLines.toNat ∨ 0 < r.limitLines.toNat ∧ r.limitLines.toNat < 2 ^ 32)
    (idle : ∀ j, (s.threads j).place.Idle r.limitLines.toNat) (here : (s.threads i).place = .testingLimit k) :
    r.InTime s i := by
  unfold Reader.InTime
  rw [here]
  intro past
  have handed : k ≤ s.handed := by
    rcases (fits.threads i).number k (by rw [here]; rfl) with ⟨other, _⟩ | ⟨below, _⟩
    · rw [here] at other
      cases other
    · exact below
  have inside := fits.handed
  rcases counts with all | ⟨positive, small⟩
  · omega
  · exact complete.limited positive small (by omega) fun j => (idle j).nothing

omit [Fintype I] [DecidableEq I] in
theorem inTime_reads {r : Reader S Y} {s : State I S Y} {i : I} (terminated : Terminated s.fin.rest)
    (idle : ∀ j, (s.threads j).place.Idle r.limitLines.toNat) (here : (s.threads i).place = .reading) : r.InTime s i := by
  unfold Reader.InTime
  rw [here]
  refine fun ends => ⟨.inl ?_, fun j => (idle j).tested⟩
  by_contra some_text
  exact ((lines_of_end (Prod.ext rfl ends)).2 some_text).2 terminated

omit [DecidableEq I] in
theorem goes_on_in_time {r : Reader S Y} {data : List (List Char)} {s : State I S Y} (fits : Fits r data s)
    (complete : Complete r.limitLines.toNat s) (terminated : Terminated s.fin.rest)
    (counts : data.length ≤ r.limitLines.toNat ∨ 0 < r.limitLines.toNat ∧ r.limitLines.toNat < 2 ^ 32)
    (unfinished : ¬ Finished s) : ∃ i, (s.threads i).place ≠ .done ∧ r.InTime s i := by
  by_cases idle : ∀ j, (s.threads j).place.Idle r.limitLines.toNat
  · obtain ⟨i, busy⟩ := not_forall.mp unfinished
    refine ⟨i, busy, ?_⟩
    rcases idle i with done | reads | ⟨k, tests, _⟩
    · exact (busy done).elim
    · exact inTime_reads terminated idle reads
    · exact inTime_past fits complete counts idle tests
  · obtain ⟨i, busy⟩ := not_forall.mp idle
    exact ⟨i, fun done => busy (.inl done), inTime_busy busy⟩

/-- A run whose steps are in time can go on by such steps until all threads are done, if every line has its newline
and either all lines are to be read or the limit is one that the count reaches. -/
theorem runs_end_in_time {r : Reader S Y} {header : Bool} {text : List Char} {s : State I S Y}
    (terminated : Terminated text)
    (counts : (dataLines header text).length ≤ r.limitLines.toNat ∨
      0 < r.limitLines.toNat ∧ r.limitLines.toNat < 2 ^ 32)
    (reached : Reachable r.step (AtStart header text) r.InTime s) :
    ∃ t, Reachable r.step (· = s) r.InTime t ∧ Finished t := by
  refine Reachable.until State.distance (fun s reached unfinished => ?_) reached
  obtain ⟨fits, complete⟩ := complete_reachable reached
  obtain ⟨i, busy, inTime⟩ := goes_on_in_time fits complete (terminated_reachable terminated reached) counts unfinished
  obtain ⟨t, taken⟩ := Option.isSome_iff_exists.mp (goes_on (r := r) busy)
  exact ⟨i, t, inTime, taken, .step reached inTime taken, moves_lowers fits.proper (step_moves taken)⟩

omit [DecidableEq I] in
theorem kept_all [Nonempty I] {r : Reader S Y} {data : List (List Char)} {s : State I S Y} (fits : Fits r data s)
    (complete : Complete r.limitLines.toNat s) (finished : Finished s) :
    (s.keptRes.map Prod.fst).Perm (firstNumbers (min data.length r.limitLines.toNat)) := by
  have all : min s.handed r.limitLines.toNat = min data.length r.limitLines.toNat := by
    obtain ⟨i⟩ := ‹Nonempty I›
    rcases (complete.threads i).stopped (.inr (finished i)) with eof | reached
    · have left := fits.unread
      rw [fits.proper.ended eof] at left
      have short : data.length ≤ s.handed := List.drop_eq_nil_iff.mp left.symm
      rw [Nat.le_antisymm fits.handed short]
    · have handed := fits.handed
      omega
  have lines := complete.lines
  have nothing : ∀ i, (s.threads i).numbers = [] := by
    intro i
    simp [Thread.numbers, (complete.threads i).merged (finished i)]
  have none : ∀ limit, Place.done.wanted limit = [] := fun _ => rfl
  rw [State.inFlight, State.kept, all] at lines
  simp only [finished _, none, nothing, Multiset.coe_nil, Finset.sum_const_zero, zero_add] at lines
  exact Multiset.coe_eq_coe.mp lines

theorem lines_of_numbers {data : List (List Char)} {kept : List (Nat × List Char)} {n : Nat}
    (known : ∀ e ∈ kept, IsLine data e) (numbers : (kept.map Prod.fst).Perm (firstNumbers (min data.length n))) :
    (kept.map Prod.snd).Perm (data.take n) := by
  have lookup : kept.map Prod.snd = (kept.map Prod.fst).map fun k => data.getD (k - 1) [] := by
    rw [List.map_map]
    apply List.map_congr_left
    intro e member
    obtain ⟨_, found⟩ := known e member
    simp [found]
  have first : data.take n = (firstNumbers (min data.length n)).map fun k => data.getD (k - 1) [] := by
    apply List.ext_getElem?
    intro j
    rw [firstNumbers, List.map_map, List.getElem?_map]
    rcases Nat.lt_or_ge j (min data.length n) with inside | outside
    · rw [List.getElem?_take_of_lt (by omega), List.getElem?_range inside]
      simp [List.getElem?_eq_getElem (show j < data.length by omega)]
    · rw [List.getElem?_eq_none (by simpa using by omega), List.getElem?_eq_none (by simpa using by omega)]
      rfl
  rw [lookup, first]
  exact numbers.map _

/-- In every run of steps that are in time, all lines up to the limit are returned, each once. -/
theorem criteo_lines_read_once [Nonempty I] (r : Reader S Y) (header : Bool) (text : List Char) {s : State I S Y}
    (reached : Reachable r.step (AtStart header text) r.InTime s) (finished : Finished s) :
    ReadOnce r (dataLines header text) s := by
  obtain ⟨fits, complete⟩ := complete_reachable reached
  obtain ⟨samples, labels⟩ := fits.aligned
  have lines := lines_of_numbers (fun e member => (fits.kept e member).2) (kept_all fits complete finished)
  constructor
  · rw [samples, labels, List.length_map, List.length_map]
  · have pairs : s.samplesRes.zip s.labelsRes = (s.keptRes.map Prod.snd).map r.parse := by
      rw [samples, labels, List.zip_map', List.map_map]
      rfl
    rw [pairs]
    exact lines.map r.parse

end Runs

def measure (limitLines : UInt64) : Reader Nat (List Char) where
  parse line := (line.length, line)
  limitLines := limitLines

theorem first_of_two_read : ∃ s : State (Fin 2) Nat (List Char),
    Finished s ∧ ReadOnce (measure 1) (dataLines false ['a', '\n', 'b', '\n']) s := by
  have ends : (followIf (measure 1).step (measure 1).InTime
      ({ fin := opened false ['a', '\n', 'b', '\n'] } : State (Fin 2) Nat (List Char))
      (List.replicate 9 0 ++ List.replicate 3 1)).map (fun s => ((s.threads 0).place, (s.threads 1).place)) =
      some (.done, .done) := by decide
  obtain ⟨s, taken, places⟩ := Option.map_eq_some_iff.mp ends
  have finished : Finished s := Fin.forall_fin_two.mpr (Prod.mk.inj places)
  exact ⟨s, finished, criteo_lines_read_once (measure 1) false _ (.followIf (.start rfl) taken) finished⟩

/-- Eight threads, one line: it is thrown away when a second thread meets the end before the first has looked. -/
theorem only_line_lost : ∃ s : State (Fin 8) Nat (List Char),
    Reachable (measure 1).step (AtStart false ['a', '\n']) anyStep s ∧ Finished s ∧ s.samplesRes = [] ∧
      ¬ ReadOnce (measure 1) (dataLines false ['a', '\n']) s := by
  have ends : (follow (measure 1).step ({ fin := opened false ['a', '\n'] } : State (Fin 8) Nat (List Char))
      ([0, 1, 0, 0, 1, 1] ++ [2, 3, 4, 5, 6, 7].flatMap (List.replicate 3))).map
        (fun s => ((List.finRange 8).all fun i => (s.threads i).place = .done, s.samplesRes)) = some (true, []) := by decide
  obtain ⟨s, taken, last⟩ := Option.map_eq_some_iff.mp ends
  obtain ⟨places, none⟩ := Prod.mk.inj last
  refine ⟨s, .follow (.start rfl) taken, ?_, none, ?_⟩
  · intro i
    simpa using List.all_eq_true.mp places i (List.mem_finRange i)
  · intro once
    have lines := once.lines.length_eq
    rw [none, List.zip_nil_left] at lines
    exact absurd lines (by decide)

end CriteoReader

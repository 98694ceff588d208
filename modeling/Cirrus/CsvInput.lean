import Cirrus.CsvReader
import Cirrus.Lib.Codec
import Mathlib.Algebra.Order.BigOperators.Group.Finset
import Mathlib.Data.List.FinRange
import Mathlib.Data.Prod.Lex

/-!
`read_input_csv` itself: it hands the lines of a file to its threads in batches
and in turn, looks until all queues are empty, asks the threads to end and
joins them.
-/
namespace CsvInput
open TextStream Transition
open CsvReader (Parser Shuffle)
variable {R F : Type} {n : Nat}

def batchSize : Nat := 100

inductive Place (F : Type)
  | reading
  | pushing
  | polling (threadIndex : Nat)
  | joining (thread : Nat)
  | returned (dataset : Except Fault (List (List F) × List F))
  | undefined

/-- `input` are the lines of the batch, as far as it has been read. -/
structure State (n : Nat) (F : Type) where
  place : Place F := .reading
  fin : InputStream
  input : List (List Char) := []
  linesCount : Nat := 0
  threadIndex : Fin (n + 1) := 0
  workers : CsvReader.State (Fin (n + 1)) F := {}

inductive Label (n : Nat)
  | main
  | thread (i : Fin (n + 1))

/-- The parameters, without `to_normalize`. -/
structure Reader (R F : Type) where
  parser : Parser F
  shuffle : Shuffle R
  limitLines : Nat

namespace Reader
variable (r : Reader R F)

/-- The first sample is printed before the shuffle. -/
def finish (samples : List (List F)) (labels : List F) : Except Fault (List (List F) × List F) :=
  if samples.length = labels.length then
    if samples = [] then .error .undefined else .ok (r.shuffle.shuffleSamplesLabels samples labels)
  else .error (.assertion "samples.size() == labels.size()")

/-- A limit of 0 is compared as any other. -/
def Limited (linesCount : Nat) : Prop := linesCount ≠ 0 ∧ r.limitLines ≤ linesCount

instance (linesCount : Nat) : Decidable (r.Limited linesCount) := inferInstanceAs (Decidable (_ ∧ _))

/-- `read_input_csv` with a vector `input` of so many elements. -/
def mainStep (size : Nat) (s : State n F) : Option (State n F) :=
  match s.place with
  | .reading =>
    if s.input.length < batchSize then
      let (line, fin) := s.fin.getline []
      if fin.fail then some { s with fin, place := .polling 0 }
      else if r.Limited s.linesCount then some { s with fin, place := .polling 0 }
      else if s.input.length < size then some { s with fin, input := s.input ++ [line], linesCount := s.linesCount + 1 }
      else some { s with fin, place := .undefined }
    else some { s with place := .pushing }
  | .pushing => some { s with
      place := .reading
      input := []
      threadIndex := s.threadIndex + 1
      workers := { s.workers with
        lines := Function.update s.workers.lines s.threadIndex (s.workers.lines s.threadIndex ++ s.input)
        pushed := s.workers.pushed ++ s.input } }
  | .polling threadIndex =>
    if inside : threadIndex < n + 1 then
      some { s with place := .polling (if s.workers.lines ⟨threadIndex, inside⟩ = [] then threadIndex + 1 else 0) }
    else some { s with place := .joining 0, workers := { s.workers with terminate := true } }
  | .joining thread =>
    if inside : thread < n + 1 then
      match s.workers.place ⟨thread, inside⟩ with
      | .done => some { s with place := .joining (thread + 1) }
      | _ => none
    else some { s with place := .returned (r.finish s.workers.samples s.workers.labels) }
  | .returned _ => none
  | .undefined => none

def sizedStep (size : Nat) (s : State n F) : Label n → Option (State n F)
  | .main => r.mainStep size s
  | .thread i => (r.parser.threadStep s.workers i).map fun workers => { s with workers }

/-- `input` is reserved and never resized: it has no element to write a line to. -/
def step : State n F → Label n → Option (State n F) := r.sizedStep 0

def wanted (text : List Char) : List (List Char) :=
  if r.limitLines = 0 then lines text else (lines text).take r.limitLines

def ReadsAll (text : List Char) : Except Fault (List (List F) × List F) → Prop
  | .ok (samples, labels) =>
    samples.length = labels.length ∧ (samples.zip labels).Perm ((r.wanted text).filterMap r.parser.parseLine)
  | .error _ => False

end Reader

def AtStart (text : List Char) (s : State n F) : Prop := s = { fin := { rest := text } }

section Threads
variable {I : Type} {p : Parser F}

def pairs (p : Parser F) : CsvReader.Place F → List (List F × F)
  | .processing threadLines => threadLines.filterMap p.parseLine
  | .merging threadSamples threadLabels => threadSamples.zip threadLabels
  | _ => []

def Together : CsvReader.Place F → Prop
  | .merging threadSamples threadLabels => threadSamples.length = threadLabels.length
  | _ => True

theorem zip_concat {A B : Type} {as : List A} {bs : List B} (together : as.length = bs.length) (a : A) (b : B) :
    (as ++ [a]).zip (bs ++ [b]) = as.zip bs ++ [(a, b)] := by
  rw [List.zip_append together]
  rfl

theorem foldlM_pairs {todo : List (List Char)} {samples samples' : List (List F)} {labels labels' : List F}
    (together : samples.length = labels.length)
    (done : todo.foldlM (fun (samples, labels) line => do
      let (sample, label) ← p.parseLine line
      pure (samples ++ [sample], labels ++ [label])) (samples, labels) = some (samples', labels')) :
    samples'.length = labels'.length ∧ samples'.zip labels' = samples.zip labels ++ todo.filterMap p.parseLine := by
  induction todo generalizing samples labels with
  | nil =>
    cases done
    exact ⟨together, (List.append_nil _).symm⟩
  | cons line todo ih =>
    rw [List.foldlM_cons] at done
    obtain ⟨next, first, rest⟩ := Option.bind_eq_some_iff.mp done
    obtain ⟨⟨sample, label⟩, parsed, same⟩ := Option.bind_eq_some_iff.mp first
    cases same
    obtain ⟨together', all⟩ := ih (by simpa using together) rest
    refine ⟨together', ?_⟩
    rw [all, zip_concat together, List.filterMap_cons, parsed, List.append_assoc]
    rfl

theorem processLines_pairs {threadLines : List (List Char)} {samples : List (List F)} {labels : List F}
    (done : p.processLines threadLines = some (samples, labels)) :
    samples.length = labels.length ∧ (samples.zip labels).Perm (threadLines.filterMap p.parseLine) := by
  have empty : ([] : List (List F)).length = ([] : List F).length := rfl
  obtain ⟨together, all⟩ := foldlM_pairs empty done
  refine ⟨together, ?_⟩
  rw [all]
  exact (List.reverse_perm threadLines).filterMap _

theorem mergeBack_pairs {S Y : Type} {samples more : List S} {labels more' : List Y} (together : more.length = more'.length) :
    CsvReader.mergeBack samples labels more more' = some (samples ++ more, labels ++ more') := by
  induction more generalizing samples labels more' with
  | nil =>
    cases List.eq_nil_of_length_eq_zero together.symm
    simp [CsvReader.mergeBack]
  | cons sample more ih =>
    cases more' with
    | nil => cases together
    | cons label more' =>
      rw [CsvReader.mergeBack, ih (by simpa using together)]
      simp

variable [Fintype I]

/-- Each pair of the lines that were pushed is in the results, in a thread or in a queue. -/
structure Kept (p : Parser F) (w : CsvReader.State I F) : Prop where
  together : w.samples.length = w.labels.length
  merging : ∀ i, Together (w.place i)
  all : (w.pushed.filterMap p.parseLine : Multiset (List F × F)) =
    (w.samples.zip w.labels : List (List F × F)) + ∑ i, (pairs p (w.place i) : Multiset (List F × F)) +
      ∑ i, ((w.lines i).filterMap p.parseLine : Multiset (List F × F))

theorem kept_start {w : CsvReader.State I F} (start : CsvReader.AtStart w) : Kept p w := by
  cases start
  exact ⟨rfl, fun _ => trivial, by simp [pairs]⟩

variable [DecidableEq I] {w w' : CsvReader.State I F} {i : I}

theorem kept_moves (kept : Kept p w) {place : CsvReader.Place F} {queue : List (List Char)}
    (together : w'.samples.length = w'.labels.length) (merging : Together place)
    (places : w'.place = Function.update w.place i place) (lines : w'.lines = Function.update w.lines i queue)
    (pushed : w'.pushed = w.pushed)
    (change : (w.samples.zip w.labels ++ (pairs p (w.place i) ++ (w.lines i).filterMap p.parseLine)).Perm
      (w'.samples.zip w'.labels ++ (pairs p place ++ queue.filterMap p.parseLine))) : Kept p w' := by
  refine ⟨together, ?_, ?_⟩
  · rw [places]
    exact forall_update kept.merging merging
  · obtain ⟨others, before, after⟩ := sum_moves (fun place => (pairs p place : Multiset (List F × F))) w.place i
    obtain ⟨others', before', after'⟩ :=
      sum_moves (fun queue => (queue.filterMap p.parseLine : Multiset (List F × F))) w.lines i
    have moved := congrArg (· + (others + others')) (Multiset.coe_eq_coe.mpr change)
    simp only [← Multiset.coe_add] at moved
    rw [pushed, kept.all, places, lines, before, before', after, after']
    calc _ = (w.samples.zip w.labels : Multiset (List F × F)) +
          (pairs p (w.place i) + ((w.lines i).filterMap p.parseLine : List (List F × F))) + (others + others') := by abel
      _ = _ := by
        rw [moved]
        abel

theorem kept_thread (kept : Kept p w) (taken : p.threadStep w i = some w') : Kept p w' := by
  have stays : w.lines = Function.update w.lines i (w.lines i) := (Function.update_eq_self i w.lines).symm
  unfold CsvReader.Parser.threadStep at taken
  dsimp only at taken
  split at taken
  case h_1 here =>
    cases taken
    refine kept_moves kept kept.together ?_ rfl stays rfl ?_
    · split <;> trivial
    · rw [here]
      split <;> rfl
  case h_2 here =>
    split at taken
    next none =>
      cases taken
      refine kept_moves kept kept.together ?_ rfl stays rfl ?_
      · trivial
      rw [here]
      rfl
    next some =>
      cases taken
      refine kept_moves kept kept.together ?_ rfl rfl rfl ?_
      · trivial
      rw [here]
      refine List.Perm.append_left _ (List.Perm.of_eq ?_)
      simp only [pairs, List.nil_append]
      rw [← List.filterMap_append, List.take_append_drop]
  case h_3 threadLines here =>
    obtain ⟨⟨samples, labels⟩, processed, same⟩ := Option.map_eq_some_iff.mp taken
    cases same
    obtain ⟨together, all⟩ := processLines_pairs processed
    refine kept_moves kept kept.together ?_ rfl stays rfl ?_
    · exact together
    rw [here]
    exact ((all.symm).append_right _).append_left _
  case h_4 threadSamples threadLabels here =>
    have together : threadSamples.length = threadLabels.length := by
      have merging := kept.merging i
      rwa [here] at merging
    have reversed : threadSamples.reverse.length = threadLabels.reverse.length := by simpa using together
    rw [mergeBack_pairs reversed] at taken
    cases taken
    refine kept_moves kept ?_ ?_ rfl stays rfl ?_
    · simp [kept.together, together]
    · trivial
    · rw [here]
      dsimp only
      have zipped : threadSamples.reverse.zip threadLabels.reverse = (threadSamples.zip threadLabels).reverse :=
        (List.reverse_zipWith together).symm
      rw [List.zip_append kept.together, List.append_assoc, zipped]
      exact ((List.reverse_perm _).symm.append_right _).append_left _
  case h_5 => cases taken

theorem kept_step {label : CsvReader.Label I} (kept : Kept p w) (taken : p.step w label = some w') : Kept p w' := by
  cases label with
  | push i line =>
    cases taken
    refine ⟨kept.together, kept.merging, ?_⟩
    obtain ⟨others, before, after⟩ :=
      sum_moves (fun queue => (queue.filterMap p.parseLine : Multiset (List F × F))) w.lines i
    dsimp only
    rw [after, List.filterMap_append, List.filterMap_append, ← Multiset.coe_add, ← Multiset.coe_add, kept.all, before]
    abel
  | terminate =>
    cases taken
    exact ⟨kept.together, kept.merging, kept.all⟩
  | thread i => exact kept_thread kept taken

theorem kept_reachable (reached : Reachable p.step CsvReader.AtStart anyStep w) : Kept p w :=
  reached.invariant (fun _ start => kept_start start) fun _ _ _ kept _ taken => kept_step kept taken

structure Moved (w w' : CsvReader.State I F) (i : I) : Prop where
  pushed : w'.pushed = w.pushed
  terminate : w'.terminate = w.terminate
  others : ∀ j ≠ i, w'.place j = w.place j ∧ w'.lines j = w.lines j
  queues : ∀ j, w.lines j = [] → w'.lines j = []
  busy : w.place i ≠ .done
  ended : w'.place i = .done → w.terminate = true

omit [Fintype I] in
theorem threadStep_moved (taken : p.threadStep w i = some w') : Moved w w' i := by
  unfold CsvReader.Parser.threadStep at taken
  dsimp only at taken
  split at taken
  case h_1 here =>
    cases taken
    refine ⟨rfl, rfl, fun j other => ⟨Function.update_of_ne other _ _, rfl⟩, fun _ none => none, by rw [here]; nofun, ?_⟩
    simp
  case h_2 here =>
    split at taken
    next none =>
      cases taken
      refine ⟨rfl, rfl, fun j other => ⟨Function.update_of_ne other _ _, rfl⟩, fun _ none => none, by rw [here]; nofun, ?_⟩
      simp
    next some =>
      cases taken
      refine ⟨rfl, rfl, fun j other => ⟨Function.update_of_ne other _ _, Function.update_of_ne other _ _⟩, ?_, by rw [here]; nofun, ?_⟩
      · intro j none
        by_cases same : j = i
        · subst same
          simp [none]
        · simpa [same] using none
      · simp
  case h_3 threadLines here =>
    obtain ⟨⟨samples, labels⟩, _, same⟩ := Option.map_eq_some_iff.mp taken
    cases same
    refine ⟨rfl, rfl, fun j other => ⟨Function.update_of_ne other _ _, rfl⟩, fun _ none => none, by rw [here]; nofun, ?_⟩
    simp
  case h_4 threadSamples threadLabels here =>
    obtain ⟨⟨samples, labels⟩, _, same⟩ := Option.map_eq_some_iff.mp taken
    cases same
    refine ⟨rfl, rfl, fun j other => ⟨Function.update_of_ne other _ _, rfl⟩, fun _ none => none, by rw [here]; nofun, ?_⟩
    simp
  case h_5 => cases taken

end Threads

section Steps
variable {r : Reader R F} {text : List Char} {s t : State n F} {size : Nat}

inductive Moves (r : Reader R F) (s : State n F) : State n F → Prop
  | line {line : List Char} {fin : InputStream} (here : s.place = .reading) (room : s.input.length < batchSize)
      (got : s.fin.getline [] = (line, fin)) (read : fin.fail = false) (free : ¬ r.Limited s.linesCount) :
      Moves r s { s with fin, input := s.input ++ [line], linesCount := s.linesCount + 1 }
  | stop {line : List Char} {fin : InputStream} (here : s.place = .reading) (room : s.input.length < batchSize)
      (got : s.fin.getline [] = (line, fin)) (ends : fin.fail = true ∨ r.Limited s.linesCount) :
      Moves r s { s with fin, place := .polling 0 }
  | full (here : s.place = .reading) (all : batchSize ≤ s.input.length) : Moves r s { s with place := .pushing }
  | push (here : s.place = .pushing) : Moves r s { s with
      place := .reading
      input := []
      threadIndex := s.threadIndex + 1
      workers := { s.workers with
        lines := Function.update s.workers.lines s.threadIndex (s.workers.lines s.threadIndex ++ s.input)
        pushed := s.workers.pushed ++ s.input } }
  | look {k : Nat} (here : s.place = .polling k) (inside : k < n + 1) :
      Moves r s { s with place := .polling (if s.workers.lines ⟨k, inside⟩ = [] then k + 1 else 0) }
  | ask {k : Nat} (here : s.place = .polling k) (outside : n + 1 ≤ k) :
      Moves r s { s with place := .joining 0, workers := { s.workers with terminate := true } }
  | join {k : Nat} (here : s.place = .joining k) (inside : k < n + 1) (done : s.workers.place ⟨k, inside⟩ = .done) :
      Moves r s { s with place := .joining (k + 1) }
  | leave {k : Nat} (here : s.place = .joining k) (outside : n + 1 ≤ k) :
      Moves r s { s with place := .returned (r.finish s.workers.samples s.workers.labels) }

theorem mainStep_moves (enough : batchSize ≤ size) (taken : r.mainStep size s = some t) : Moves r s t := by
  unfold Reader.mainStep at taken
  split at taken
  next here =>
    split at taken
    next room =>
      split at taken
      next line fin got =>
        split at taken
        next ends =>
          cases taken
          exact .stop here room got (.inl ends)
        next read =>
          split at taken
          next limited =>
            cases taken
            exact .stop here room got (.inr limited)
          next free =>
            rw [if_pos (room.trans_le enough)] at taken
            cases taken
            exact .line here room got (by simpa using read) free
    next all =>
      cases taken
      exact .full here (not_lt.mp all)
  next here =>
    cases taken
    exact .push here
  next k here =>
    split at taken
    next inside =>
      cases taken
      exact .look here inside
    next outside =>
      cases taken
      exact .ask here (not_lt.mp outside)
  next k here =>
    split at taken
    next inside =>
      split at taken
      next done =>
        cases taken
        exact .join here inside done
      next => cases taken
    next outside =>
      cases taken
      exact .leave here (not_lt.mp outside)
  next => cases taken
  next => cases taken

def Reader.stored (r : Reader R F) (text : List Char) : Nat := min (lines text).length (max r.limitLines 1)

def Place.Reads : Place F → Prop
  | reading | pushing => True
  | _ => False

structure Produced (r : Reader R F) (text : List Char) (s : State n F) : Prop where
  proper : s.fin.Proper
  small : s.input.length ≤ batchSize
  count : s.linesCount = s.workers.pushed.length + s.input.length
  batches : batchSize ∣ s.workers.pushed.length
  below : s.linesCount ≤ r.stored text
  read : s.workers.pushed ++ s.input = (lines text).take s.linesCount
  ahead : s.place.Reads → lines s.fin.rest = (lines text).drop s.linesCount
  full : s.place = .pushing → s.input.length = batchSize
  stopped : ¬ s.place.Reads → s.linesCount = r.stored text ∧ s.input.length < batchSize

theorem produced_start (start : AtStart text s) : Produced r text s := by
  cases start
  exact ⟨⟨nofun, nofun⟩, Nat.zero_le _, rfl, Nat.dvd_zero _, Nat.zero_le _, rfl, fun _ => rfl, nofun, fun reads => (reads trivial).elim⟩

theorem limited_iff (linesCount : Nat) : r.Limited linesCount ↔ max r.limitLines 1 ≤ linesCount := by
  unfold Reader.Limited
  omega

theorem Produced.changed (produced : Produced r text s) {place : Place F} {workers : CsvReader.State (Fin (n + 1)) F}
    (pushed : workers.pushed = s.workers.pushed) (reads : place.Reads ↔ s.place.Reads)
    (pushing : place = .pushing → s.place = .pushing) : Produced r text { s with place, workers } := by
  obtain ⟨proper, small, count, batches, below, read, ahead, full, stopped⟩ := produced
  rw [← pushed] at count batches read
  exact ⟨proper, small, count, batches, below, read, fun here => ahead (reads.mp here), fun here => full (pushing here),
    fun here => stopped (mt reads.mpr here)⟩

theorem produced_moves (produced : Produced r text s) (move : Moves r s t) : Produced r text t := by
  obtain ⟨proper, small, count, batches, below, read, ahead, full, stopped⟩ := produced
  cases move with
  | @line line fin here room got more free =>
    have reads : s.place.Reads := by rw [here]; trivial
    have split := InputStream.read_line proper got more
    rw [ahead reads] at split
    have inside : s.linesCount < (lines text).length := by
      by_contra past
      rw [List.drop_of_length_le (by omega)] at split
      cases split
    rw [List.drop_eq_getElem_cons inside] at split
    obtain ⟨first, rest⟩ := List.cons.inj split
    have proper' := proper.getline got
    rw [limited_iff] at free
    refine ⟨proper', ?_, ?_, batches, ?_, ?_, fun _ => rest.symm, ?_, fun stops => (stops reads).elim⟩
    · rw [List.length_append]
      exact room
    · rw [List.length_append, List.length_singleton, count]
      exact Nat.add_assoc ..
    · unfold Reader.stored
      dsimp only
      omega
    · dsimp only
      rw [← List.append_assoc, read, ← first]
      exact List.take_concat_get' ..
    · dsimp only
      rw [here]
      nofun
  | @stop line fin here room got ends =>
    have reads : s.place.Reads := by rw [here]; trivial
    have proper' := proper.getline got
    have all : r.stored text ≤ s.linesCount := by
      rcases ends with none | limited
      · obtain ⟨same, eof⟩ := InputStream.read_none proper got none
        rw [ahead reads, proper'.ended eof] at same
        have past := List.drop_eq_nil_iff.mp same.symm
        exact (Nat.min_le_left _ _).trans past
      · exact (Nat.min_le_right _ _).trans (limited_iff _ |>.mp limited)
    exact ⟨proper', small, count, batches, below, read, nofun, nofun, fun _ => ⟨Nat.le_antisymm below all, room⟩⟩
  | full here all =>
    have reads : s.place.Reads := by rw [here]; trivial
    exact ⟨proper, small, count, batches, below, read, fun _ => ahead reads, fun _ => Nat.le_antisymm small all,
      fun stops => (stops trivial).elim⟩
  | push here =>
    have reads : s.place.Reads := by rw [here]; trivial
    have all := full here
    refine ⟨proper, Nat.zero_le _, ?_, ?_, below, ?_, fun _ => ahead reads, nofun, fun stops => (stops trivial).elim⟩
    · simpa using count
    · rw [List.length_append, all]
      exact Nat.dvd_add batches (dvd_refl _)
    · rw [List.append_nil]
      exact read
  | look here inside | ask here outside | join here inside done | leave here outside =>
    apply Produced.changed ⟨proper, small, count, batches, below, read, ahead, full, stopped⟩
    · rfl
    · rw [here]
      exact Iff.rfl
    · nofun

def Place.Waits (r : Reader R F) (w : CsvReader.State (Fin (n + 1)) F) : Place F → Prop
  | reading | pushing => w.terminate = false
  | polling k => w.terminate = false ∧ ∀ i, i.val < k → w.lines i = []
  | joining k => w.terminate = true ∧ (∀ i, w.lines i = []) ∧ ∀ i, i.val < k → w.place i = .done
  | returned dataset => (∀ i, w.lines i = []) ∧ (∀ i, w.place i = .done) ∧ dataset = r.finish w.samples w.labels
  | undefined => False

/-- No thread ends before it is asked to, and none is asked to before all queues are empty. -/
structure Waits (r : Reader R F) (s : State n F) : Prop where
  place : s.place.Waits r s.workers
  alive : ∀ i, s.workers.place i = .done → s.workers.terminate = true

theorem waits_start (start : AtStart text s) : Waits r s := by
  cases start
  exact ⟨rfl, nofun⟩

theorem waits_moves (waits : Waits r s) (move : Moves r s t) : Waits r t := by
  obtain ⟨place, alive⟩ := waits
  cases move with
  | line here room got read free => exact ⟨place, alive⟩
  | stop here room got ends | full here all | push here =>
    rw [here] at place
    refine ⟨?_, alive⟩
    first
    | exact ⟨place, nofun⟩
    | exact place
  | @look k here inside =>
    rw [here] at place
    obtain ⟨running, drained⟩ := place
    refine ⟨?_, alive⟩
    dsimp only
    split
    next none =>
      refine ⟨running, fun i below => ?_⟩
      rcases Nat.lt_succ_iff_lt_or_eq.mp below with earlier | rfl
      · exact drained i earlier
      · exact none
    next => exact ⟨running, nofun⟩
  | ask here outside =>
    rw [here] at place
    exact ⟨⟨rfl, fun i => place.2 i (i.isLt.trans_le outside), nofun⟩, fun _ _ => rfl⟩
  | @join k here inside done =>
    rw [here] at place
    obtain ⟨asked, empty, joined⟩ := place
    refine ⟨⟨asked, empty, fun i below => ?_⟩, alive⟩
    rcases Nat.lt_succ_iff_lt_or_eq.mp below with earlier | rfl
    · exact joined i earlier
    · exact done
  | leave here outside =>
    rw [here] at place
    exact ⟨⟨place.2.1, fun i => place.2.2 i (i.isLt.trans_le outside), rfl⟩, alive⟩

theorem waits_thread (waits : Waits r s) {i : Fin (n + 1)} {w : CsvReader.State (Fin (n + 1)) F}
    (moved : Moved s.workers w i) : Waits r { s with workers := w } := by
  obtain ⟨place, alive⟩ := waits
  obtain ⟨_, terminate, others, queues, busy, ended⟩ := moved
  have alive' : ∀ j, w.place j = .done → w.terminate = true := by
    intro j done
    rw [terminate]
    by_cases same : j = i
    · exact ended (same ▸ done)
    · exact alive j ((others j same).1 ▸ done)
  have still : ∀ j, s.workers.place j = .done → w.place j = .done := by
    intro j done
    have other : j ≠ i := fun same => busy (same ▸ done)
    rw [(others j other).1, done]
  refine ⟨?_, alive'⟩
  dsimp only
  cases here : s.place with
  | reading | pushing =>
    rw [here] at place
    exact terminate.trans place
  | polling k =>
    rw [here] at place
    exact ⟨terminate.trans place.1, fun j below => queues j (place.2 j below)⟩
  | joining k =>
    rw [here] at place
    exact ⟨terminate.trans place.1, fun j => queues j (place.2.1 j), fun j below => still j (place.2.2 j below)⟩
  | returned dataset =>
    rw [here] at place
    exact (busy (place.2.1 i)).elim
  | undefined =>
    rw [here] at place
    exact place.elim

theorem follow_push (p : Parser F) (w : CsvReader.State (Fin (n + 1)) F) (i : Fin (n + 1)) (batch : List (List Char)) :
    follow p.step w (batch.map (CsvReader.Label.push i)) = some { w with
      lines := Function.update w.lines i (w.lines i ++ batch)
      pushed := w.pushed ++ batch } := by
  induction batch generalizing w with
  | nil => simp
  | cons line batch ih =>
    rw [List.map_cons, follow_cons rfl, ih]
    simp

theorem workers_reachable (enough : batchSize ≤ size) (reached : Reachable (r.sizedStep size) (AtStart (n := n) text) anyStep s) :
    Reachable r.parser.step CsvReader.AtStart anyStep s.workers := by
  induction reached with
  | start initial =>
    cases initial
    exact .start rfl
  | @step s t label before _ taken ih =>
    cases label with
    | main =>
      cases mainStep_moves enough taken with
      | push here => exact ih.follow (follow_push r.parser s.workers s.threadIndex s.input)
      | ask here outside => exact .step ih (l := .terminate) trivial rfl
      | _ => exact ih
    | thread i =>
      obtain ⟨w, stepped, rfl⟩ := Option.map_eq_some_iff.mp taken
      exact .step ih (l := .thread i) trivial stepped

theorem produced_step (enough : batchSize ≤ size) (produced : Produced r text s) {label : Label n}
    (taken : r.sizedStep size s label = some t) : Produced r text t := by
  cases label with
  | main => exact produced_moves produced (mainStep_moves enough taken)
  | thread i =>
    obtain ⟨w, stepped, rfl⟩ := Option.map_eq_some_iff.mp taken
    exact produced.changed (threadStep_moved stepped).pushed Iff.rfl id

theorem waits_step (enough : batchSize ≤ size) (waits : Waits r s) {label : Label n}
    (taken : r.sizedStep size s label = some t) : Waits r t := by
  cases label with
  | main => exact waits_moves waits (mainStep_moves enough taken)
  | thread i =>
    obtain ⟨w, stepped, rfl⟩ := Option.map_eq_some_iff.mp taken
    exact waits_thread waits (threadStep_moved stepped)

theorem produced_reachable (enough : batchSize ≤ size) (reached : Reachable (r.sizedStep size) (AtStart text) anyStep s) :
    Produced r text s :=
  reached.invariant (fun _ start => produced_start start) fun _ _ _ produced _ taken => produced_step enough produced taken

theorem waits_reachable (enough : batchSize ≤ size) (reached : Reachable (r.sizedStep size) (AtStart text) anyStep s) :
    Waits r s :=
  reached.invariant (fun _ start => waits_start start) fun _ _ _ waits _ taken => waits_step enough waits taken

theorem Produced.pushed (produced : Produced r text s) (stops : ¬ s.place.Reads) :
    s.workers.pushed = (lines text).take (batchSize * (r.stored text / batchSize)) := by
  obtain ⟨all, some_room⟩ := produced.stopped stops
  obtain ⟨q, whole⟩ := produced.batches
  have count := produced.count
  have quotient : r.stored text / batchSize = q := by
    rw [← all, count, whole, Nat.mul_add_div (by decide), Nat.div_eq_of_lt some_room, Nat.add_zero]
  rw [quotient, ← whole]
  have front := congrArg (List.take s.workers.pushed.length) produced.read
  rw [List.take_left, List.take_take, Nat.min_eq_left (by omega)] at front
  exact front

theorem results_of_done (waits : Waits r s) (kept : Kept r.parser s.workers)
    {dataset : Except Fault (List (List F) × List F)} (left : s.place = .returned dataset) :
    (s.workers.samples.zip s.workers.labels).Perm (s.workers.pushed.filterMap r.parser.parseLine) ∧
      dataset = r.finish s.workers.samples s.workers.labels := by
  have place := waits.place
  rw [left] at place
  obtain ⟨empty, done, result⟩ := place
  refine ⟨Multiset.coe_eq_coe.mp ?_, result⟩
  have all := kept.all
  simp only [empty, done, pairs, List.filterMap_nil, Multiset.coe_nil, Finset.sum_const_zero, add_zero] at all
  exact all.symm

theorem randomShuffle_perm {A : Type} (shuffle : Shuffle R) (state : R) (l : List A) : (shuffle.randomShuffle state l).Perm l := by
  have moved := (shuffle.order l.length state).ofFn_comp_perm fun k => l[k]
  have all : (List.ofFn fun k : Fin l.length => l[k]) = l := List.ofFn_getElem
  rw [all] at moved
  exact moved

theorem randomShuffle_map {A B : Type} (shuffle : Shuffle R) (state : R) (f : A → B) (l : List A) :
    shuffle.randomShuffle state (l.map f) = (shuffle.randomShuffle state l).map f := by
  apply List.ext_getElem?
  intro k
  rw [CsvReader.Shuffle.randomShuffle_getElem?, List.getElem?_map, List.getElem?_map,
    CsvReader.Shuffle.randomShuffle_getElem?, List.length_map]

theorem shuffle_pairs {S Y : Type} (shuffle : Shuffle R) {samples : List S} {labels : List Y}
    (together : samples.length = labels.length) :
    (shuffle.shuffleSamplesLabels samples labels).1.length = (shuffle.shuffleSamplesLabels samples labels).2.length ∧
    ((shuffle.shuffleSamplesLabels samples labels).1.zip (shuffle.shuffleSamplesLabels samples labels).2).Perm
      (samples.zip labels) := by
  have first : samples = (samples.zip labels).map Prod.fst := (List.map_fst_zip (Nat.le_of_eq together)).symm
  have second : labels = (samples.zip labels).map Prod.snd := (List.map_snd_zip (Nat.le_of_eq together.symm)).symm
  generalize samples.zip labels = both at first second ⊢
  subst first second
  simp only [CsvReader.Shuffle.shuffleSamplesLabels, randomShuffle_map, List.length_map, List.zip_map', List.map_id']
  exact ⟨trivial, randomShuffle_perm shuffle (shuffle.srand 42) both⟩

theorem readsAll_iff (enough : batchSize ≤ size) (wellFormed : ∀ line ∈ lines text, (r.parser.parseLine line).isSome)
    (some_line : lines text ≠ []) (reached : Reachable (r.sizedStep size) (AtStart text) anyStep s) {dataset : Except Fault (List (List F) × List F)}
    (left : s.place = .returned dataset) :
    r.ReadsAll text dataset ↔ r.limitLines ≠ 0 ∧ batchSize ∣ min (lines text).length r.limitLines := by
  have kept := kept_reachable (workers_reachable enough reached)
  obtain ⟨results, rfl⟩ := results_of_done (waits_reachable enough reached) kept left
  have pushed := (produced_reachable enough reached).pushed (by rw [left]; exact id)
  have positive : 0 < (lines text).length := List.length_pos_of_ne_nil some_line
  have count {ls : List (List Char)} (known : ls ⊆ lines text) : (ls.filterMap r.parser.parseLine).length = ls.length :=
    List.filterMap_length_eq_length.mpr fun line member => wellFormed line (known member)
  have given : s.workers.samples.length = batchSize * (r.stored text / batchSize) := by
    have few : batchSize * (r.stored text / batchSize) ≤ (lines text).length :=
      (Nat.mul_div_le _ _).trans (Nat.min_le_left _ _)
    have length := results.length_eq
    rw [List.length_zip, ← kept.together, Nat.min_self, pushed, count (List.take_subset _ _), List.length_take,
      Nat.min_eq_left few] at length
    exact length
  obtain ⟨together, shuffled⟩ := shuffle_pairs r.shuffle kept.together
  have stored_eq : r.limitLines ≠ 0 → r.stored text = min (lines text).length r.limitLines := by
    intro limit
    rw [Reader.stored, Nat.max_eq_left (Nat.one_le_iff_ne_zero.mpr limit)]
  unfold Reader.finish
  rw [if_pos kept.together]
  split
  next none =>
    rw [none, List.length_nil] at given
    constructor
    · exact False.elim
    · rintro ⟨limit, whole⟩
      rw [← stored_eq limit] at whole
      have exact' := Nat.mul_div_cancel' whole
      have some_stored : 0 < r.stored text := by
        rw [stored_eq limit]
        omega
      omega
  next some_sample =>
    have limit : r.limitLines ≠ 0 := by
      intro zero
      have few : r.stored text / batchSize = 0 := by
        rw [Reader.stored, zero]
        exact Nat.div_eq_of_lt ((Nat.min_le_right _ _).trans_lt (by decide))
      rw [few] at given
      exact some_sample (List.eq_nil_of_length_eq_zero given)
    have wanted : r.wanted text = (lines text).take (r.stored text) := by
      rw [Reader.wanted, if_neg limit, stored_eq limit, List.take_eq_take_min, Nat.min_comm]
    have all := shuffled.trans results
    rw [pushed] at all
    rw [and_iff_right limit, ← stored_eq limit]
    refine (and_iff_right together).trans ?_
    rw [wanted]
    have few : r.stored text ≤ (lines text).length := Nat.min_le_left _ _
    constructor
    · intro complete
      have lengths := (all.symm.trans complete).length_eq
      rw [count (List.take_subset _ _), count (List.take_subset _ _), List.length_take, List.length_take,
        Nat.min_eq_left few, Nat.min_eq_left ((Nat.mul_div_le _ _).trans few)] at lengths
      exact ⟨_, lengths.symm⟩
    · intro whole
      rwa [Nat.mul_div_cancel' whole] at all

end Steps

section Progress
variable {r : Reader R F} {text : List Char} {s t : State n F} {p : Parser F} {size : Nat}

def rank : CsvReader.Place F → Nat
  | .processing _ => 3
  | .merging _ _ => 2
  | .checking => 1
  | _ => 0

def toEnd : CsvReader.Place F → Nat
  | .processing _ => 4
  | .merging _ _ => 3
  | .taking => 2
  | .checking => 1
  | .done => 0

def load (w : CsvReader.State (Fin (n + 1)) F) (i : Fin (n + 1)) : Nat := 4 * (w.lines i).length + rank (w.place i)

/-- Reading, then the queues, then the threads one after the other. -/
def State.measure (s : State n F) : ℕ ×ₗ (ℕ ×ₗ ℕ) :=
  match s.place with
  | .reading => toLex (3, toLex (3 * (lines s.fin.rest).length + if s.input.length < batchSize then 0 else 2, 0))
  | .pushing => toLex (3, toLex (3 * (lines s.fin.rest).length + 1, 0))
  | .polling k => toLex (2, toLex (∑ i, load s.workers i, n + 1 - k))
  | .joining k => toLex (1, toLex (n + 1 - k, if inside : k < n + 1 then toEnd (s.workers.place ⟨k, inside⟩) else 0))
  | .returned _ => toLex (0, toLex (0, 0))
  | .undefined => toLex (0, toLex (0, 0))

theorem processLines_some {threadLines : List (List Char)} (wellFormed : ∀ line ∈ threadLines, (p.parseLine line).isSome) :
    (p.processLines threadLines).isSome := by
  unfold CsvReader.Parser.processLines
  have reversed : ∀ line ∈ threadLines.reverse, (p.parseLine line).isSome := by simpa using wellFormed
  generalize threadLines.reverse = todo at reversed
  generalize (([], []) : List (List F) × List F) = results
  induction todo generalizing results with
  | nil => rfl
  | cons line todo ih =>
    obtain ⟨here, later⟩ := List.forall_mem_cons.mp reversed
    obtain ⟨pair, parsed⟩ := Option.isSome_iff_exists.mp here
    rw [List.foldlM_cons, parsed]
    exact ih later _

variable {w : CsvReader.State (Fin (n + 1)) F} {i : Fin (n + 1)}

theorem thread_goes (fits : CsvReader.Fits p w) (kept : Kept p w)
    (wellFormed : ∀ line ∈ w.pushed, (p.parseLine line).isSome) (busy : w.place i ≠ .done) :
    ∃ w', p.threadStep w i = some w' ∧ (w.terminate = false → w.lines i ≠ [] → load w' i < load w i) ∧
      (w.terminate = true → w.lines i = [] → toEnd (w'.place i) < toEnd (w.place i)) := by
  unfold CsvReader.Parser.threadStep load
  dsimp only
  cases here : w.place i with
  | checking =>
    refine ⟨_, rfl, ?_, ?_⟩
    · intro running _
      simp [running, rank]
    · intro asked _
      simp [asked, toEnd]
  | taking =>
    dsimp only
    cases queue : w.lines i with
    | nil => exact ⟨_, rfl, fun _ some_line => (some_line rfl).elim, fun _ _ => by simp [toEnd]⟩
    | cons line rest =>
      refine ⟨_, rfl, fun _ _ => ?_, nofun⟩
      have shorter : ((line :: rest).drop CsvReader.readAtATime).length ≤ rest.length := by
        rw [List.length_drop, List.length_cons]
        unfold CsvReader.readAtATime
        omega
      simp only [Function.update_self, rank, List.length_cons]
      omega
  | processing threadLines =>
    have known := fits.place i
    rw [here] at known
    obtain ⟨⟨samples, labels⟩, processed⟩ :=
      Option.isSome_iff_exists.mp (processLines_some fun line member => wellFormed line (known member))
    dsimp only
    rw [processed]
    refine ⟨_, rfl, ?_, ?_⟩
    · intro _ _
      simp [rank]
    · intro _ _
      simp [toEnd]
  | merging threadSamples threadLabels =>
    have together := kept.merging i
    rw [here] at together
    have reversed : threadSamples.reverse.length = threadLabels.reverse.length := by
      rw [List.length_reverse, List.length_reverse]
      exact together
    dsimp only
    rw [mergeBack_pairs reversed]
    refine ⟨_, rfl, ?_, ?_⟩
    · intro _ _
      simp [rank]
    · intro _ _
      simp [toEnd]
  | done => exact (busy here).elim

structure Known (r : Reader R F) (size : Nat) (text : List Char) (s : State n F) : Prop where
  enough : batchSize ≤ size
  reached : Reachable (r.sizedStep size) (AtStart text) anyStep s
  wellFormed : ∀ line ∈ lines text, (r.parser.parseLine line).isSome

theorem Known.thread (known : Known r size text s) (busy : s.workers.place i ≠ .done) :
    ∃ w', r.sizedStep size s (.thread i) = some { s with workers := w' } ∧ Moved s.workers w' i ∧
      (s.workers.terminate = false → s.workers.lines i ≠ [] → load w' i < load s.workers i) ∧
      (s.workers.terminate = true → s.workers.lines i = [] → toEnd (w'.place i) < toEnd (s.workers.place i)) := by
  have reached := workers_reachable known.enough known.reached
  have pushed : s.workers.pushed ⊆ lines text := by
    have read := (produced_reachable known.enough known.reached).read
    have first : s.workers.pushed ⊆ s.workers.pushed ++ s.input := List.subset_append_left _ _
    rw [read] at first
    exact List.Subset.trans first (List.take_subset _ _)
  obtain ⟨w', stepped, closer⟩ := thread_goes (CsvReader.fits_reachable reached) (kept_reachable reached)
    (fun line member => known.wellFormed line (pushed member)) busy
  exact ⟨w', by rw [Reader.sizedStep, stepped]; rfl, threadStep_moved stepped, closer⟩

theorem Known.polling_closer (known : Known r size text s) {k : Nat} (here : s.place = .polling k) :
    ∃ l t, r.sizedStep size s l = some t ∧ t.measure < s.measure := by
  have waits := waits_reachable known.enough known.reached
  obtain ⟨running, drained⟩ : s.workers.terminate = false ∧ ∀ i, i.val < k → s.workers.lines i = [] := by
    have place := waits.place
    rwa [here] at place
  by_cases empty : ∀ i, s.workers.lines i = []
  · by_cases inside : k < n + 1
    · refine ⟨.main, { s with place := .polling (k + 1) }, ?_, ?_⟩
      · simp [Reader.sizedStep, Reader.mainStep, here, inside, empty]
      · unfold State.measure
        rw [here]
        simp only [Prod.Lex.toLex_lt_toLex, lt_irrefl, true_and, false_or]
        omega
    · refine ⟨.main, { s with place := .joining 0, workers := { s.workers with terminate := true } }, ?_, ?_⟩
      · simp [Reader.sizedStep, Reader.mainStep, here, inside]
      · unfold State.measure
        rw [here]
        simp [Prod.Lex.toLex_lt_toLex]
  · obtain ⟨i, some_line⟩ := not_forall.mp empty
    have busy : s.workers.place i ≠ .done := fun done => by
      have asked := waits.alive i done
      rw [running] at asked
      cases asked
    obtain ⟨w', stepped, moved, closer, _⟩ := known.thread busy
    refine ⟨.thread i, _, stepped, ?_⟩
    have less : ∑ j, load w' j < ∑ j, load s.workers j := by
      refine Finset.sum_lt_sum ?_ ⟨i, Finset.mem_univ i, closer running some_line⟩
      intro j _
      by_cases same : j = i
      · exact same ▸ (closer running some_line).le
      · unfold load
        rw [(moved.others j same).1, (moved.others j same).2]
    unfold State.measure
    rw [here]
    simp only [Prod.Lex.toLex_lt_toLex, lt_irrefl, true_and, false_or]
    exact .inl less

theorem Known.joining_closer (known : Known r size text s) {k : Nat} (here : s.place = .joining k) :
    ∃ l t, r.sizedStep size s l = some t ∧ t.measure < s.measure := by
  have waits := waits_reachable known.enough known.reached
  obtain ⟨asked, empty, _⟩ : s.workers.terminate = true ∧ (∀ i, s.workers.lines i = []) ∧
      ∀ i, i.val < k → s.workers.place i = .done := by
    have place := waits.place
    rwa [here] at place
  by_cases inside : k < n + 1
  · by_cases done : s.workers.place ⟨k, inside⟩ = .done
    · refine ⟨.main, { s with place := .joining (k + 1) }, ?_, ?_⟩
      · simp [Reader.sizedStep, Reader.mainStep, here, inside, done]
      · unfold State.measure
        rw [here]
        simp only [Prod.Lex.toLex_lt_toLex, lt_irrefl, true_and, false_or]
        omega
    · obtain ⟨w', stepped, _, _, closer⟩ := known.thread done
      refine ⟨.thread ⟨k, inside⟩, _, stepped, ?_⟩
      unfold State.measure
      rw [here]
      simp only [Prod.Lex.toLex_lt_toLex, lt_irrefl, true_and, false_or, dif_pos inside]
      exact closer asked (empty _)
  · refine ⟨.main, { s with place := .returned (r.finish s.workers.samples s.workers.labels) }, ?_, ?_⟩
    · simp [Reader.sizedStep, Reader.mainStep, here, inside]
    · unfold State.measure
      rw [here]
      simp [Prod.Lex.toLex_lt_toLex]

theorem Known.reading_closer (known : Known r size text s) (reads : s.place.Reads) :
    ∃ l t, r.sizedStep size s l = some t ∧ t.measure < s.measure := by
  have produced := produced_reachable known.enough known.reached
  cases here : s.place with
  | pushing =>
    refine ⟨.main, _, by rw [Reader.sizedStep, Reader.mainStep, here], ?_⟩
    unfold State.measure
    rw [here]
    simp [Prod.Lex.toLex_lt_toLex, batchSize]
  | reading =>
    by_cases room : s.input.length < batchSize
    · generalize got : s.fin.getline [] = read
      obtain ⟨line, fin⟩ := read
      by_cases stops : fin.fail = true ∨ r.Limited s.linesCount
      · refine ⟨.main, { s with fin, place := .polling 0 }, ?_, ?_⟩
        · rcases stops with none | limited
          · simp [Reader.sizedStep, Reader.mainStep, here, room, got, none]
          · simp [Reader.sizedStep, Reader.mainStep, here, room, got, limited]
        · unfold State.measure
          rw [here]
          simp [Prod.Lex.toLex_lt_toLex]
      · rw [not_or] at stops
        have split := InputStream.read_line produced.proper got (by simpa using stops.1)
        refine ⟨.main, { s with fin, input := s.input ++ [line], linesCount := s.linesCount + 1 }, ?_, ?_⟩
        · simp [Reader.sizedStep, Reader.mainStep, here, room, got, stops.1, stops.2, room.trans_le known.enough]
        · unfold State.measure
          rw [here]
          simp only [Prod.Lex.toLex_lt_toLex, lt_irrefl, true_and, false_or, and_false, or_false, split, List.length_cons,
            if_pos room]
          split <;> omega
    · refine ⟨.main, { s with place := .pushing }, ?_, ?_⟩
      · simp [Reader.sizedStep, Reader.mainStep, here, room]
      · unfold State.measure
        rw [here]
        simp [Prod.Lex.toLex_lt_toLex, room]
  | _ =>
    rw [here] at reads
    exact reads.elim

theorem can_return (known : Known r size text s) :
    ∃ labels t, follow (r.sizedStep size) s labels = some t ∧ ∃ dataset, t.place = .returned dataset := by
  refine follow_until State.measure ?_ known
  intro s known unfinished
  have some_step : ∃ l t, r.sizedStep size s l = some t ∧ t.measure < s.measure := by
    cases here : s.place with
    | reading | pushing => exact known.reading_closer (by rw [here]; trivial)
    | polling k => exact known.polling_closer here
    | joining k => exact known.joining_closer here
    | returned dataset => exact (unfinished ⟨dataset, here⟩).elim
    | undefined =>
      have place := (waits_reachable known.enough known.reached).place
      rw [here] at place
      exact place.elim
  obtain ⟨l, t, taken, less⟩ := some_step
  exact ⟨l, t, taken, ⟨known.enough, .step known.reached trivial taken, known.wellFormed⟩, less⟩

end Progress

/-- With room for a batch every run could go on until it returns, and one that has returned would have read the whole
file exactly if there is a limit and the lines that it lets through make complete batches. -/
theorem sized_reads_all_iff (r : Reader R F) {size : Nat} (enough : batchSize ≤ size) (text : List Char)
    (wellFormed : ∀ line ∈ lines text, (r.parser.parseLine line).isSome) (some_line : lines text ≠ []) {s : State n F}
    (reached : Reachable (r.sizedStep size) (AtStart text) anyStep s) :
    (∃ labels t, follow (r.sizedStep size) s labels = some t ∧ ∃ dataset, t.place = .returned dataset) ∧
    ∀ dataset, s.place = .returned dataset →
      (r.ReadsAll text dataset ↔ r.limitLines ≠ 0 ∧ batchSize ∣ min (lines text).length r.limitLines) :=
  ⟨can_return ⟨enough, reached, wellFormed⟩, fun _ left => readsAll_iff enough wellFormed some_line reached left⟩

section Reserved
variable {r : Reader R F} {text : List Char} {s t : State n F}

inductive FirstLine (text : List Char) (s : State n F) : Prop
  | before (here : s.place = .reading) (unread : s.fin = { rest := text }) (empty : s.input = []) (none : s.linesCount = 0)
  | after (here : s.place = .undefined)

/-- The limit is not looked at before the first line, and the line is there. -/
theorem mainStep_first (some_line : lines text ≠ []) (here : s.place = .reading) (unread : s.fin = { rest := text })
    (empty : s.input = []) (none : s.linesCount = 0) : ∃ fin, r.mainStep 0 s = some { s with fin, place := .undefined } := by
  generalize got : s.fin.getline [] = read
  obtain ⟨line, fin⟩ := read
  have proper : s.fin.Proper := by
    rw [unread]
    exact ⟨nofun, nofun⟩
  have there : fin.fail = false := by
    by_contra failed
    obtain ⟨same, eof⟩ := InputStream.read_none proper got (by simpa using failed)
    have proper' := proper.getline got
    rw [proper'.ended eof, unread] at same
    exact some_line same.symm
  have unlimited : ¬ r.Limited s.linesCount := fun limited => limited.1 none
  refine ⟨fin, ?_⟩
  simp [Reader.mainStep, here, empty, got, there, unlimited, batchSize]

theorem firstLine_step (some_line : lines text ≠ []) (first : FirstLine text s) {label : Label n}
    (taken : r.step s label = some t) : FirstLine text t := by
  cases label with
  | main =>
    change r.mainStep 0 s = some t at taken
    cases first with
    | before here unread empty none =>
      obtain ⟨fin, stepped⟩ := mainStep_first (r := r) some_line here unread empty none
      cases stepped.symm.trans taken
      exact .after rfl
    | after here =>
      rw [Reader.mainStep, here] at taken
      cases taken
  | thread i =>
    obtain ⟨w, stepped, rfl⟩ := Option.map_eq_some_iff.mp taken
    cases first with
    | before here unread empty none => exact .before here unread empty none
    | after here => exact .after here

theorem firstLine_reachable (some_line : lines text ≠ []) (reached : Reachable r.step (AtStart text) anyStep s) :
    FirstLine text s :=
  reached.invariant
    (fun s start => by
      obtain rfl : s = { fin := { rest := text } } := start
      exact .before rfl rfl rfl rfl)
    fun _ _ _ first _ taken => firstLine_step some_line first taken

end Reserved

/-- No file with a line is read: what is done with the first line is undefined, whatever the threads do and whatever the
limit is. -/
theorem read_input_csv_never (r : Reader R F) (text : List Char) (some_line : lines text ≠ []) {s : State n F}
    (reached : Reachable r.step (AtStart text) anyStep s) :
    (∀ dataset, s.place ≠ .returned dataset) ∧
      (s.place = .undefined ∨ ∃ t, r.step s .main = some t ∧ t.place = .undefined) := by
  cases firstLine_reachable some_line reached with
  | before here unread empty none =>
    obtain ⟨fin, stepped⟩ := mainStep_first (r := r) some_line here unread empty none
    refine ⟨fun dataset returned => ?_, .inr ⟨_, stepped, rfl⟩⟩
    rw [here] at returned
    cases returned
  | after here =>
    refine ⟨fun dataset returned => ?_, .inl here⟩
    rw [here] at returned
    cases returned

def reader (limitLines : Nat) : Reader Unit (List Char) where
  parser := CsvReader.columns
  shuffle := CsvReader.opposite
  limitLines := limitLines

def hundred : List Char := (List.replicate 100 ['a', '\n']).flatten

theorem hundred_lines_unread : ∃ s : State 0 (List Char), AtStart hundred s ∧ (∀ dataset, s.place ≠ .returned dataset) ∧
    (s.place = .undefined ∨ ∃ t, (reader 100).step s .main = some t ∧ t.place = .undefined) :=
  ⟨_, rfl, read_input_csv_never (reader 100) hundred (by decide +kernel) (.start rfl)⟩

theorem only_line_undefined : ∃ s : State 0 (List Char), Reachable (reader 0).step (AtStart "a,b\n".toList) anyStep s ∧
    s.place = .undefined ∧ ¬ ∃ labels t dataset, follow (reader 0).step s labels = some t ∧ t.place = .returned dataset ∧
      (reader 0).ReadsAll "a,b\n".toList dataset := by
  obtain ⟨s, taken, here⟩ : ∃ s, follow (reader 0).step ({ fin := { rest := "a,b\n".toList } } : State 0 (List Char))
      [.main] = some s ∧ s.place = .undefined := ⟨_, rfl, rfl⟩
  have reached : Reachable (reader 0).step (AtStart "a,b\n".toList) anyStep s := .follow (.start rfl) taken
  refine ⟨s, reached, here, ?_⟩
  rintro ⟨labels, t, dataset, later, returned, _⟩
  have some_line : lines "a,b\n".toList ≠ [] := by decide
  cases firstLine_reachable some_line (reached.follow later) with
  | before reads => cases reads.symm.trans returned
  | after undefined => cases undefined.symm.trans returned

end CsvInput

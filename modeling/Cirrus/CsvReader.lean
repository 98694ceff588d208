import Cirrus.CriteoLines
import Mathlib.Logic.Equiv.Defs

/-!
The threads of `read_input_csv`, the two vectors that they fill, and the
shuffle of these. Lines are taken from the back of a vector when they are
parsed, and samples and labels when they are merged.
-/
namespace CsvReader
open Transition
variable {I F S Y R : Type}

def maxStrSize : Nat := 10000

def readAtATime : Nat := 1000

def tokens (delimiter : List Char) : List Char → List (List Char)
  | [] => [[]]
  | c :: rest =>
    if c ∈ delimiter then [] :: tokens delimiter rest
    else
      match tokens delimiter rest with
      | [] => [[c]]
      | token :: more => (c :: token) :: more

/-- The parameters of the threads, and `string_to`. -/
structure Parser (F : Type) where
  delimiter : List Char
  limitCols : Nat
  stringTo : List Char → F

/-- One line of `process_lines`. A longer line fails the assertion, or has no end in the buffer. -/
def Parser.parseLine (p : Parser F) (line : List Char) : Option (List F × F) :=
  if line.length + 1 < maxStrSize then
    let columns := tokens p.delimiter (line.takeWhile (· ≠ '\x00'))
    match (if p.limitCols = 0 then columns else columns.take p.limitCols).map p.stringTo with
    | label :: sample => some (sample, label)
    | [] => none
  else none

/-- `process_lines`, from the last line to the first. -/
def Parser.processLines (p : Parser F) (threadLines : List (List Char)) : Option (List (List F) × List F) :=
  threadLines.reverse.foldlM (fun (samples, labels) line => do
    let (sample, label) ← p.parseLine line
    pure (samples ++ [sample], labels ++ [label])) ([], [])

/-- The loop that moves both vectors to the results, from their backs. -/
def mergeBack (samples : List S) (labels : List Y) : List S → List Y → Option (List S × List Y)
  | [], _ => some (samples, labels)
  | s :: ss, y :: ys => mergeBack (samples ++ [s]) (labels ++ [y]) ss ys
  | _ :: _, [] => none

inductive Place (F : Type)
  | checking
  | taking
  | processing (threadLines : List (List Char))
  | merging (threadSamples : List (List F)) (threadLabels : List F)
  | done

/-- `pushed` is a history: all lines that were given to the threads. -/
structure State (I F : Type) where
  lines : I → List (List Char) := fun _ => []
  terminate : Bool := false
  place : I → Place F := fun _ => .checking
  samples : List (List F) := []
  labels : List F := []
  pushed : List (List Char) := []

inductive Label (I : Type)
  | push (i : I) (line : List Char)
  | terminate
  | thread (i : I)

section Steps
variable [DecidableEq I]

def Parser.threadStep (p : Parser F) (s : State I F) (i : I) : Option (State I F) :=
  let goes (place : Place F) (s : State I F) := { s with place := Function.update s.place i place }
  match s.place i with
  | .checking => some (goes (if s.terminate then .done else .taking) s)
  | .taking =>
    match (s.lines i).take readAtATime with
    | [] => some (goes .checking s)
    | taken => some (goes (.processing taken) { s with
        lines := Function.update s.lines i ((s.lines i).drop readAtATime) })
  | .processing threadLines => (p.processLines threadLines).map fun (samples, labels) => goes (.merging samples labels) s
  | .merging threadSamples threadLabels =>
    (mergeBack s.samples s.labels threadSamples.reverse threadLabels.reverse).map fun (samples, labels) =>
      goes .checking { s with samples, labels }
  | .done => none

def Parser.step (p : Parser F) (s : State I F) : Label I → Option (State I F)
  | .push i line => some { s with
      lines := Function.update s.lines i (s.lines i ++ [line])
      pushed := s.pushed ++ [line] }
  | .terminate => some { s with terminate := true }
  | .thread i => p.threadStep s i

end Steps

def AtStart (s : State I F) : Prop := s = {}

/-- `srand`, and the order in which `random_shuffle` puts a range of a length. -/
structure Shuffle (R : Type) where
  srand : UInt32 → R
  order : ∀ length : Nat, R → Equiv.Perm (Fin length)

def Shuffle.randomShuffle {A : Type} (shuffle : Shuffle R) (state : R) (l : List A) : List A :=
  List.ofFn fun k => l[shuffle.order l.length state k]

def Shuffle.shuffleSamplesLabels (shuffle : Shuffle R) (samples : List S) (labels : List Y) : List S × List Y :=
  (shuffle.randomShuffle (shuffle.srand 42) samples, shuffle.randomShuffle (shuffle.srand 42) labels)

structure SameLines (parse : List Char → Option (S × Y)) (data : List (List Char)) (samples : List S) (labels : List Y) :
    Prop where
  length : samples.length = labels.length
  line : ∀ (k : Nat) s y, samples[k]? = some s → labels[k]? = some y → ∃ line ∈ data, parse line = some (s, y)

structure Filled (parse : List Char → Option (S × Y)) (data : List (List Char)) (samples : List S) (labels : List Y)
    (pairs : List (S × Y)) : Prop where
  samples : samples = pairs.map Prod.fst
  labels : labels = pairs.map Prod.snd
  lines : ∀ e ∈ pairs, ∃ line ∈ data, parse line = some e

theorem Filled.sameLines {parse : List Char → Option (S × Y)} {data : List (List Char)} {samples : List S} {labels : List Y}
    {pairs : List (S × Y)} (filled : Filled parse data samples labels pairs) : SameLines parse data samples labels := by
  obtain ⟨rfl, rfl, lines⟩ := filled
  constructor
  · rw [List.length_map, List.length_map]
  · intro k s y sample label
    rw [List.getElem?_map] at sample label
    obtain ⟨e, found, rfl⟩ := Option.map_eq_some_iff.mp sample
    obtain ⟨e', found', rfl⟩ := Option.map_eq_some_iff.mp label
    rw [found] at found'
    cases found'
    exact lines e (List.mem_of_getElem? found)

theorem Filled.append {parse : List Char → Option (S × Y)} {data : List (List Char)} {samples samples' : List S}
    {labels labels' : List Y} {pairs pairs' : List (S × Y)} (first : Filled parse data samples labels pairs)
    (second : Filled parse data samples' labels' pairs') :
    Filled parse data (samples ++ samples') (labels ++ labels') (pairs ++ pairs') where
  samples := by rw [first.samples, second.samples, List.map_append]
  labels := by rw [first.labels, second.labels, List.map_append]
  lines := List.forall_mem_append.mpr ⟨first.lines, second.lines⟩

theorem Filled.mono {parse : List Char → Option (S × Y)} {data data' : List (List Char)} {samples : List S}
    {labels : List Y} {pairs : List (S × Y)} (filled : Filled parse data samples labels pairs) (more : data ⊆ data') :
    Filled parse data' samples labels pairs where
  samples := filled.samples
  labels := filled.labels
  lines e member := by
    obtain ⟨line, known, parsed⟩ := filled.lines e member
    exact ⟨line, more known, parsed⟩

theorem processLines_from {p : Parser F} {data todo : List (List Char)} (known : todo ⊆ data)
    {samples samples' : List (List F)} {labels labels' : List F} {pairs : List (List F × F)}
    (filled : Filled p.parseLine data samples labels pairs)
    (done : todo.foldlM (fun (samples, labels) line => do
      let (sample, label) ← p.parseLine line
      pure (samples ++ [sample], labels ++ [label])) (samples, labels) = some (samples', labels')) :
    ∃ pairs', Filled p.parseLine data samples' labels' pairs' := by
  induction todo generalizing samples labels pairs with
  | nil =>
    cases done
    exact ⟨pairs, filled⟩
  | cons line todo ih =>
    obtain ⟨here, later⟩ := List.cons_subset.mp known
    rw [List.foldlM_cons] at done
    obtain ⟨next, first, rest⟩ := Option.bind_eq_some_iff.mp done
    obtain ⟨⟨sample, label⟩, parsed, same⟩ := Option.bind_eq_some_iff.mp first
    cases same
    have one : Filled p.parseLine data [sample] [label] [(sample, label)] :=
      ⟨rfl, rfl, List.forall_mem_singleton.mpr ⟨line, here, parsed⟩⟩
    exact ih later (filled.append one) rest

theorem processLines_filled {p : Parser F} {threadLines data : List (List Char)} (known : threadLines ⊆ data)
    {samples : List (List F)} {labels : List F} (done : p.processLines threadLines = some (samples, labels)) :
    ∃ pairs, Filled p.parseLine data samples labels pairs := by
  have reversed : threadLines.reverse ⊆ data := List.reverse_subset.mpr known
  have empty : Filled p.parseLine data [] [] [] := ⟨rfl, rfl, nofun⟩
  exact processLines_from reversed empty done

theorem mergeBack_filled {parse : List Char → Option (S × Y)} {data : List (List Char)} {samples : List S} {labels : List Y}
    {pairs : List (S × Y)} (more : List (S × Y)) (filled : Filled parse data samples labels pairs)
    (lines : ∀ e ∈ more, ∃ line ∈ data, parse line = some e) :
    ∃ samples' labels', mergeBack samples labels (more.map Prod.fst) (more.map Prod.snd) = some (samples', labels') ∧
      Filled parse data samples' labels' (pairs ++ more) := by
  induction more generalizing samples labels pairs with
  | nil =>
    rw [List.append_nil]
    exact ⟨samples, labels, rfl, filled⟩
  | cons e more ih =>
    rw [List.forall_mem_cons] at lines
    have one : Filled parse data [e.1] [e.2] [e] := ⟨rfl, rfl, List.forall_mem_singleton.mpr lines.1⟩
    obtain ⟨samples', labels', merged, all⟩ := ih (filled.append one) lines.2
    rw [List.append_assoc] at all
    exact ⟨samples', labels', merged, all⟩

section Runs

def Place.Fits (p : Parser F) (data : List (List Char)) : Place F → Prop
  | processing threadLines => threadLines ⊆ data
  | merging threadSamples threadLabels => ∃ pairs, Filled p.parseLine data threadSamples threadLabels pairs
  | _ => True

theorem Place.Fits.mono {p : Parser F} {data data' : List (List Char)} {place : Place F} (fits : place.Fits p data)
    (more : data ⊆ data') : place.Fits p data' := by
  cases place with
  | processing threadLines => exact List.Subset.trans fits more
  | merging threadSamples threadLabels =>
    obtain ⟨pairs, filled⟩ := fits
    exact ⟨pairs, filled.mono more⟩
  | _ => trivial

/-- What holds in every run: lines come from the queues, and the vectors are filled together. -/
structure Fits (p : Parser F) (s : State I F) : Prop where
  lines : ∀ i, s.lines i ⊆ s.pushed
  place : ∀ i, (s.place i).Fits p s.pushed
  results : ∃ pairs, Filled p.parseLine s.pushed s.samples s.labels pairs

theorem fits_start (p : Parser F) {s : State I F} (start : AtStart s) : Fits p s := by
  cases start
  exact ⟨fun _ => List.nil_subset _, fun _ => trivial, [], rfl, rfl, nofun⟩

theorem merge_goes_on {p : Parser F} {s : State I F} (fits : Fits p s) {i : I} {threadSamples : List (List F)}
    {threadLabels : List F} (here : s.place i = .merging threadSamples threadLabels) :
    ∃ samples labels, mergeBack s.samples s.labels threadSamples.reverse threadLabels.reverse = some (samples, labels) ∧
      ∃ pairs, Filled p.parseLine s.pushed samples labels pairs := by
  obtain ⟨pairs, filled⟩ := fits.results
  have place := fits.place i
  rw [here] at place
  obtain ⟨more, ⟨rfl, rfl, lines⟩⟩ := place
  obtain ⟨samples, labels, merged, all⟩ := mergeBack_filled more.reverse filled fun e member =>
    lines e (List.mem_reverse.mp member)
  rw [List.map_reverse, List.map_reverse] at merged
  exact ⟨samples, labels, merged, _, all⟩

theorem fits_thread [DecidableEq I] {p : Parser F} {s t : State I F} {i : I} (fits : Fits p s)
    (taken : p.threadStep s i = some t) : Fits p t := by
  unfold Parser.threadStep at taken
  dsimp only at taken
  split at taken
  case h_1 here =>
    cases taken
    refine ⟨fits.lines, forall_update fits.place ?_, fits.results⟩
    split
    · trivial
    · trivial
  case h_2 here =>
    split at taken
    next none =>
      cases taken
      exact ⟨fits.lines, forall_update fits.place trivial, fits.results⟩
    next some =>
      cases taken
      refine ⟨forall_update (P := (· ⊆ s.pushed)) fits.lines ?_, forall_update fits.place ?_, fits.results⟩
      · exact List.Subset.trans (List.drop_subset _ _) (fits.lines i)
      · exact List.Subset.trans (List.take_subset _ _) (fits.lines i)
  case h_3 threadLines here =>
    obtain ⟨⟨samples, labels⟩, processed, same⟩ := Option.map_eq_some_iff.mp taken
    cases same
    have known := fits.place i
    rw [here] at known
    exact ⟨fits.lines, forall_update fits.place (processLines_filled known processed), fits.results⟩
  case h_4 threadSamples threadLabels here =>
    obtain ⟨samples, labels, merged, filled⟩ := merge_goes_on fits here
    rw [merged] at taken
    cases taken
    exact ⟨fits.lines, forall_update fits.place trivial, filled⟩
  case h_5 => cases taken

theorem fits_step [DecidableEq I] {p : Parser F} {s t : State I F} {label : Label I} (fits : Fits p s)
    (taken : p.step s label = some t) : Fits p t := by
  cases label with
  | push i line =>
    cases taken
    have more : s.pushed ⊆ s.pushed ++ [line] := List.subset_append_left _ _
    have earlier : ∀ j, s.lines j ⊆ s.pushed ++ [line] := fun j => List.Subset.trans (fits.lines j) more
    refine ⟨forall_update (P := (· ⊆ s.pushed ++ [line])) earlier ?_, fun j => (fits.place j).mono more, ?_⟩
    · exact List.append_subset.mpr ⟨List.Subset.trans (fits.lines i) more, List.subset_append_right _ _⟩
    · obtain ⟨pairs, filled⟩ := fits.results
      exact ⟨pairs, filled.mono more⟩
  | terminate =>
    cases taken
    exact ⟨fits.lines, fits.place, fits.results⟩
  | thread i => exact fits_thread fits taken

theorem fits_reachable [DecidableEq I] {p : Parser F} {s : State I F}
    (reached : Reachable p.step AtStart anyStep s) : Fits p s :=
  reached.invariant (fun _ start => fits_start p start) fun _ _ _ fits _ taken => fits_step fits taken

theorem csv_sameLines [DecidableEq I] {p : Parser F} {s : State I F} (reached : Reachable p.step AtStart anyStep s) :
    SameLines p.parseLine s.pushed s.samples s.labels := by
  obtain ⟨pairs, filled⟩ := (fits_reachable reached).results
  exact filled.sameLines

theorem criteo_sameLines [DecidableEq I] {r : CriteoReader.Reader S Y} {header : Bool} {text : List Char}
    {s : CriteoReader.State I S Y} (reached : Reachable r.step (CriteoReader.AtStart header text) anyStep s) :
    SameLines (fun line => some (r.parse line)) (CriteoReader.dataLines header text) s.samplesRes s.labelsRes := by
  have fits := CriteoReader.fits_reachable reached
  have filled : Filled (fun line => some (r.parse line)) (CriteoReader.dataLines header text) s.samplesRes s.labelsRes
      (s.keptRes.map fun e => r.parse e.2) := by
    refine ⟨?_, ?_, ?_⟩
    · rw [fits.aligned.samples, List.map_map]
      rfl
    · rw [fits.aligned.labels, List.map_map]
      rfl
    · rw [List.forall_mem_map]
      intro e member
      exact ⟨e.2, List.mem_of_getElem? (fits.kept e member).2.2, rfl⟩
  exact filled.sameLines

end Runs

section Shuffles

def Shuffle.source (shuffle : Shuffle R) (length : Nat) (state : R) (k : Nat) : Nat :=
  if inside : k < length then shuffle.order length state ⟨k, inside⟩ else k

theorem Shuffle.randomShuffle_getElem? {A : Type} (shuffle : Shuffle R) (state : R) (l : List A) (k : Nat) :
    (shuffle.randomShuffle state l)[k]? = l[shuffle.source l.length state k]? := by
  unfold Shuffle.randomShuffle Shuffle.source
  rw [List.getElem?_ofFn]
  split
  · exact (List.getElem?_eq_getElem _).symm
  next outside => exact (List.getElem?_eq_none (by omega)).symm

theorem Shuffle.sameLines (shuffle : Shuffle R) {parse : List Char → Option (S × Y)} {data : List (List Char)}
    {samples : List S} {labels : List Y} (same : SameLines parse data samples labels) :
    SameLines parse data (shuffle.shuffleSamplesLabels samples labels).1 (shuffle.shuffleSamplesLabels samples labels).2 := by
  unfold Shuffle.shuffleSamplesLabels
  constructor
  · unfold Shuffle.randomShuffle
    rw [List.length_ofFn, List.length_ofFn, same.length]
  · intro k s y sample label
    rw [Shuffle.randomShuffle_getElem?] at sample label
    rw [← same.length] at label
    exact same.line _ s y sample label

end Shuffles

section Settled
variable [DecidableEq I]

/-- In every run of either reader, and after the shuffle. -/
theorem labels_stay_with_samples (shuffle : Shuffle R) :
    (∀ (p : Parser F) (s : State I F), Reachable p.step AtStart anyStep s →
      SameLines p.parseLine s.pushed s.samples s.labels ∧
      ∀ i threadSamples threadLabels, s.place i = .merging threadSamples threadLabels → (p.threadStep s i).isSome) ∧
    (∀ (r : CriteoReader.Reader S Y) (header : Bool) (text : List Char) (s : CriteoReader.State I S Y),
      Reachable r.step (CriteoReader.AtStart header text) anyStep s →
      SameLines (fun line => some (r.parse line)) (CriteoReader.dataLines header text) s.samplesRes s.labelsRes) ∧
    ∀ (parse : List Char → Option (S × Y)) (data : List (List Char)) (samples : List S) (labels : List Y),
      SameLines parse data samples labels →
      SameLines parse data (shuffle.shuffleSamplesLabels samples labels).1
        (shuffle.shuffleSamplesLabels samples labels).2 := by
  refine ⟨?_, ?_, ?_⟩
  · intro p s reached
    refine ⟨csv_sameLines reached, ?_⟩
    intro i threadSamples threadLabels here
    obtain ⟨samples, labels, merged, filled⟩ := merge_goes_on (fits_reachable reached) here
    unfold Parser.threadStep
    rw [here]
    dsimp only
    rw [merged]
    rfl
  · exact fun r header text s reached => criteo_sameLines reached
  · exact fun parse data samples labels same => shuffle.sameLines same

end Settled

def columns : Parser (List Char) where
  delimiter := [',']
  limitCols := 0
  stringTo := id

def opposite : Shuffle Unit where
  srand _ := ()
  order _ _ := Fin.revPerm

/-- The second thread merges first. A thread that looks again before the end is asked to stop finds nothing. -/
theorem two_threads_two_lines : ∃ (s : State (Fin 2) (List Char)) (t : CriteoReader.State (Fin 2) Nat (List Char)),
    s.samples = [[['d']], [['b']]] ∧ s.labels = [['c'], ['a']] ∧
      SameLines columns.parseLine s.pushed s.samples s.labels ∧
      SameLines columns.parseLine s.pushed (opposite.shuffleSamplesLabels s.samples s.labels).1
        (opposite.shuffleSamplesLabels s.samples s.labels).2 ∧
      t.labelsRes = [['a']] ∧
      SameLines (fun line => some ((CriteoReader.measure 1).parse line)) (CriteoReader.dataLines false ['a', '\n', 'b', '\n'])
        t.samplesRes t.labelsRes := by
  have csv : (follow columns.step ({} : State (Fin 2) (List Char))
      ([Label.push 0 ['a', ',', 'b'], .push 1 ['c', ',', 'd']] ++
        [0, 0, 0, 1, 1, 1, 1, 0, 0, 0].map Label.thread)).map (fun s => (s.samples, s.labels)) =
      some ([[['d']], [['b']]], [['c'], ['a']]) := by decide
  obtain ⟨s, taken, last⟩ := Option.map_eq_some_iff.mp csv
  obtain ⟨samples, labels⟩ := Prod.mk.inj last
  have criteo : (follow (CriteoReader.measure 1).step
      ({ fin := CriteoReader.opened false ['a', '\n', 'b', '\n'] } : CriteoReader.State (Fin 2) Nat (List Char))
      (List.replicate 9 0 ++ List.replicate 3 1)).map (fun s => s.labelsRes) = some [['a']] := by decide
  obtain ⟨t, taken', line⟩ := Option.map_eq_some_iff.mp criteo
  have settled := labels_stay_with_samples (I := Fin 2) (F := List Char) (S := List (List Char)) (Y := List Char) opposite
  have other := labels_stay_with_samples (I := Fin 2) (F := List Char) (S := Nat) (Y := List Char) opposite
  have same := (settled.1 columns s (.follow (.start rfl) taken)).1
  exact ⟨s, t, samples, labels, same, settled.2.2 _ _ _ _ same, line,
    other.2.1 (CriteoReader.measure 1) false _ t (.follow (.start rfl) taken')⟩

end CsvReader

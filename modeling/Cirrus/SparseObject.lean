import Cirrus.MinibatchGradient

/-!
A `SparseDataset` as an object of S3: how its samples are packed, how the
iterator finds the minibatches of an object, and how a dataset is read from a
minibatch and from an object.
-/
namespace SparseObject
open Gradients SparseLR Decoder

class FeatureTests (F : Type) where
  /-- equal to 0 or to 1 -/
  isLabel : F → Bool
  /-- within `FLOAT_EPS` of 0 or of 1 -/
  nearLabel : F → Bool
  near : ∀ label, isLabel label → nearLabel label
  /-- neither nan nor infinite -/
  finite : F → Bool

/-- Of a float, given as its bits. Besides 1 itself only the float before it is within `FLOAT_EPS` of 1. -/
instance : FeatureTests UInt32 where
  isLabel x := x = 0 ∨ x = 0x80000000 ∨ x = 0x3f800000
  nearLabel x := x &&& 0x7fffffff < 0x33d6bf95 ∨ x = 0x3f7fffff ∨ x = 0x3f800000
  near label test := by
    simp only [decide_eq_true_eq] at test
    rcases test with rfl | rfl | rfl <;> decide
  finite x := x &&& 0x7f800000 ≠ 0x7f800000

variable {B F : Type}

section Packing
variable (w : Wire B F) (storeLabels : Bool) (ds : SparseDataset F)

def putEntry (e : Int32 × F) : List B := w.int.put e.1 ++ w.feature.put e.2

def storeLabel (i : Nat) : Except Fault (List B) := if storeLabels then (at' ds.labels i).map w.feature.put else .ok []

/-- The turn of the loop that stores sample `i`. -/
def storeSample (i : Nat) : Except Fault (List B) := do
  let label ← storeLabel w storeLabels ds i
  match ds.data[i]? with
  | some row => .ok (label ++ (w.int.put (toInt row.length) ++ row.flatMap (putEntry w)))
  | none => .error .undefined

def storeSamples (i : Nat) : Nat → Except Fault (List B)
  | 0 => .ok []
  | n + 1 => do
    let sample ← storeSample w storeLabels ds i
    let rest ← storeSamples (i + 1) n
    .ok (sample ++ rest)

/-- The bytes that are allocated for samples `l` to `r`. -/
def objSize (l r : UInt64) : UInt64 :=
  let numberEntriesObj := ((ds.data.drop l.toNat).take (r.toNat - l.toNat)).flatten.length
  UInt64.ofNat numberEntriesObj * 8 + (r - l) * ((if storeLabels then 4 else 0) + 4) + 4 * 2

def buildSerializedS3Obj (l r : UInt64) : Except Fault (List B) := do
  if ¬ l < r then .error (.assertion "l < r")
  let size := objSize storeLabels ds l r
  let samples ← storeSamples w storeLabels ds l.toNat (r.toNat - l.toNat)
  let object := w.int.put size.toUInt32.toInt32 ++ (w.int.put (r - l).toUInt32.toInt32 ++ samples)
  -- the object is written into what is allocated for it
  if object.length = size.toNat then .ok object else .error .undefined

end Packing

section Reading
variable [FeatureTests F] (w : Wire B F) (labelled : Bool)

def advancePtr (bytes : Nat) : Decoder B Unit := fun memory =>
  if bytes ≤ memory.length then .ok ((), memory.drop bytes) else .error .undefined

/-- The walk over one sample in `pushSamples`. -/
def skipSample : Decoder B Unit := do
  if labelled then
    let label ← w.feature.load
    check (FeatureTests.isLabel label) (.assertion "label == 0.0 || label == 1.0")
  let numValues ← w.int.load
  check (0 ≤ numValues.toInt ∧ numValues.toInt < 1000000) (.assertion "num_values >= 0 && num_values < 1000000")
  advancePtr (numValues.toInt.toNat * (4 + 4))

def here : Decoder B (List B) := fun memory => .ok (memory, memory)

def passMinibatch (minibatchRows : Nat) : Decoder B (List B) := do
  let data ← here
  let _ ← rounds (fun _ => skipSample w labelled) 0 minibatchRows
  pure data

def pushSamples (nMinibatches minibatchRows : Nat) : Decoder B (List (List B)) := do
  let _ ← w.int.load
  let _ ← w.int.load
  rounds (fun _ => passMinibatch w labelled minibatchRows) 0 nMinibatches

def loadEntry : Decoder B (Int32 × F) := do
  let index ← w.int.load
  let value ← w.feature.load
  pure (index, value)

def loadLabel : Decoder B (Option F) := if labelled then some <$> w.feature.load else pure none

def loadSample : Decoder B (Option F × Row F) := do
  let label ← loadLabel w labelled
  let numSampleValues ← w.int.load
  check (∀ l ∈ label, FeatureTests.nearLabel l) (.assertion "FLOAT_EQ(label, 0.0) || FLOAT_EQ(label, 1.0)")
  check (0 ≤ numSampleValues.toInt ∧ numSampleValues.toInt < 1000000)
    (.assertion "num_sample_values >= 0 && num_sample_values < 1000000")
  let sample ← rounds (fun _ => loadEntry w) 0 numSampleValues.toInt.toNat
  pure (label, sample)

def loadSampleS3 : Decoder B (Option F × Row F) := do
  let label ← loadLabel w labelled
  check (∀ l ∈ label, FeatureTests.isLabel l) (.assertion "label == 0.0 || label == 1.0")
  let numSampleValues ← w.int.load
  check (¬ (numSampleValues.toInt < 0 ∨ 1000000 < numSampleValues.toInt)) (.exception "num_sample_values not ok")
  let sample ← rounds (fun _ => loadEntry w) 0 numSampleValues.toInt.toNat
  pure (label, sample)

def dataset (samples : List (Option F × Row F)) : SparseDataset F := ⟨samples.map Prod.snd, samples.filterMap Prod.fst⟩

def fromMinibatch (nSamples : Nat) : Decoder B (SparseDataset F) := do
  let samples ← rounds (fun _ => loadSample w labelled) 0 nSamples
  pure (dataset samples)

def fromS3 : Decoder B (SparseDataset F) := do
  let _ ← w.int.load
  let nSamples ← w.int.load
  check (0 < nSamples.toInt ∧ nSamples.toInt < 1000000) (.assertion "n_samples > 0 && n_samples < 1000000")
  let samples ← rounds (fun _ => loadSampleS3 w labelled) 0 nSamples.toInt.toNat
  pure (dataset samples)

end Reading

section Samples

def samples (labelled : Bool) (ds : SparseDataset F) : List (Option F × Row F) :=
  if labelled then (ds.labels.map some).zip ds.data else ds.data.map (none, ·)

def putSample (w : Wire B F) (s : Option F × Row F) : List B :=
  s.1.elim [] w.feature.put ++ (w.int.put (toInt s.2.length) ++ s.2.flatMap (putEntry w))

variable {w : Wire B F} {labelled : Bool} {ds : SparseDataset F}

theorem samples_length (matched : labelled → ds.labels.length = ds.data.length) :
    (samples labelled ds).length = ds.data.length := by
  unfold samples
  split
  next labelled => rw [List.length_zip, List.length_map, matched labelled, min_self]
  next => rw [List.length_map]

theorem storeSample_stores {i : Nat} {stored : List B} (ok : storeSample w labelled ds i = .ok stored) :
    ∃ s, (samples labelled ds)[i]? = some s ∧ stored = putSample w s := by
  unfold storeSample at ok
  obtain ⟨label, read, ok⟩ := Loops.ok_of_bind ok
  split at ok
  next row there =>
    obtain rfl := Except.ok.inj ok
    cases labelled with
    | false =>
      obtain rfl := Except.ok.inj read
      exact ⟨(none, row), by simp [samples, there], rfl⟩
    | true =>
      unfold storeLabel at' at read
      rw [if_pos rfl] at read
      split at read
      next x placed =>
        obtain rfl := Except.ok.inj read
        refine ⟨(some x, row), ?_, rfl⟩
        simp [samples, List.getElem?_zip_eq_some, placed, there]
      next => cases read
  next => cases ok

theorem storeSamples_stores {i n : Nat} {stored : List B} (ok : storeSamples w labelled ds i n = .ok stored) :
    n ≤ ((samples labelled ds).drop i).length ∧
      stored = (((samples labelled ds).drop i).take n).flatMap (putSample w) := by
  induction n generalizing i stored with
  | zero =>
    obtain rfl := Except.ok.inj ok
    exact ⟨Nat.zero_le _, rfl⟩
  | succ n ih =>
    unfold storeSamples at ok
    obtain ⟨sample, first, ok⟩ := Loops.ok_of_bind ok
    obtain ⟨rest, others, ok⟩ := Loops.ok_of_bind ok
    obtain rfl := Except.ok.inj ok
    obtain ⟨s, there, rfl⟩ := storeSample_stores first
    obtain ⟨enough, rfl⟩ := ih others
    have split : (samples labelled ds).drop i = s :: (samples labelled ds).drop (i + 1) := by
      obtain ⟨inside, same⟩ := List.getElem?_eq_some_iff.mp there
      rw [List.drop_eq_getElem_cons inside, same]
    rw [split, List.length_cons, List.take_succ_cons, List.flatMap_cons]
    exact ⟨by omega, rfl⟩

theorem build_stores {l r : UInt64} {object : List B} (ok : buildSerializedS3Obj w labelled ds l r = .ok object) :
    l < r ∧ r.toNat - l.toNat ≤ ((samples labelled ds).drop l.toNat).length ∧
      ∃ size count : Int32, count = (r - l).toUInt32.toInt32 ∧ object = w.int.put size ++ (w.int.put count ++
        (((samples labelled ds).drop l.toNat).take (r.toNat - l.toNat)).flatMap (putSample w)) := by
  unfold buildSerializedS3Obj at ok
  simp only at ok
  split at ok
  next => cases ok
  next ordered =>
    obtain ⟨stored, written, ok⟩ := Loops.ok_of_bind ok
    obtain ⟨enough, rfl⟩ := storeSamples_stores written
    split at ok
    next =>
      obtain rfl := Except.ok.inj ok
      exact ⟨not_not.mp ordered, enough, _, _, rfl, rfl⟩
    next => cases ok

/-- A sample that passes the tests of every reader. -/
structure Good [FeatureTests F] (labelled : Bool) (s : Option F × Row F) : Prop where
  labelled : s.1.isSome = labelled
  label : ∀ l ∈ s.1, FeatureTests.isLabel l
  short : s.2.length < 1000000

end Samples

section Readers
variable {w : Wire B F} {labelled : Bool}

theorem putEntry_length (e : Int32 × F) : (putEntry w e).length = 4 + 4 := by simp [putEntry]

theorem putEntries_length (row : Row F) : (row.flatMap (putEntry w)).length = row.length * (4 + 4) := by
  induction row with
  | nil => rfl
  | cons e rest ih =>
    rw [List.flatMap_cons, List.length_append, putEntry_length, ih, List.length_cons, Nat.succ_mul]
    exact Nat.add_comm _ _

theorem advance_row (row : Row F) : Decodes (advancePtr (row.length * (4 + 4))) (row.flatMap (putEntry w)) () := by
  intro rest
  unfold advancePtr
  rw [← putEntries_length (w := w) row, if_pos (by simp), List.drop_left]

theorem loadLabel_decodes {label : Option F} (labels : label.isSome = labelled) :
    Decodes (loadLabel w labelled) (label.elim [] w.feature.put) label := by
  cases label with
  | none =>
    obtain rfl : false = labelled := labels
    exact .pure none
  | some l =>
    obtain rfl : true = labelled := labels
    exact (Decodes.load w.feature l).last

theorem count_small {n : Nat} (small : n < 2 ^ 31) : (toInt n).toInt = n ∧ (toInt n).toInt.toNat = n := by
  have count : (toInt n).toInt = n := LRSparseGradient.toInt_toInt small
  exact ⟨count, by rw [count]; exact Int.toNat_natCast n⟩

theorem loadRow_decodes {s : Option F × Row F} (small : s.2.length < 2 ^ 31) :
    Decodes (do
      let sample ← rounds (fun _ => loadEntry w) 0 (toInt s.2.length).toInt.toNat
      pure (s.1, sample)) (s.2.flatMap (putEntry w)) s := by
  rw [(count_small small).2]
  apply Decodes.last
  apply Decodes.rounds 0 s.2
  exact fun _ e _ _ => (Decodes.load w.int e.1).bind (Decodes.load w.feature e.2).last

variable [FeatureTests F]

theorem skipSample_decodes {s : Option F × Row F} (good : Good labelled s) :
    Decodes (skipSample w labelled) (putSample w s) () := by
  obtain ⟨count, rounds_all⟩ := count_small (Nat.lt_trans good.short (by decide) : s.2.length < 2 ^ 31)
  have short := good.short
  have body : Decodes (do
      let numValues ← w.int.load
      check (0 ≤ numValues.toInt ∧ numValues.toInt < 1000000) (.assertion "num_values >= 0 && num_values < 1000000")
      advancePtr (numValues.toInt.toNat * (4 + 4)))
      (w.int.put (toInt s.2.length) ++ s.2.flatMap (putEntry w)) () := by
    apply Decodes.bind (.load w.int _)
    apply Decodes.skip (.check ?_ _)
    · rw [rounds_all]
      exact advance_row s.2
    · rw [count]
      omega
  obtain ⟨label, row⟩ := s
  cases label with
  | none =>
    obtain rfl : false = labelled := good.labelled
    exact body
  | some l =>
    obtain rfl : true = labelled := good.labelled
    apply Decodes.bind (.load w.feature l)
    exact Decodes.skip (.check (good.label l rfl) _) body

theorem loadSample_decodes {s : Option F × Row F} (good : Good labelled s) :
    Decodes (loadSample w labelled) (putSample w s) s := by
  have small : s.2.length < 2 ^ 31 := Nat.lt_trans good.short (by decide)
  have short := good.short
  apply Decodes.bind (loadLabel_decodes good.labelled)
  apply Decodes.bind (.load w.int _)
  apply Decodes.skip (.check (fun l member => FeatureTests.near l (good.label l member)) _)
  apply Decodes.skip (.check ?_ _) (loadRow_decodes small)
  rw [(count_small small).1]
  omega

/-- A reader of objects accepts one value more in a sample. -/
theorem loadSampleS3_decodes {s : Option F × Row F} (labels : s.1.isSome = labelled)
    (label : ∀ l ∈ s.1, FeatureTests.isLabel l) (short : s.2.length ≤ 1000000) :
    Decodes (loadSampleS3 w labelled) (putSample w s) s := by
  have small : s.2.length < 2 ^ 31 := Nat.lt_of_le_of_lt short (by decide)
  apply Decodes.bind (loadLabel_decodes labels)
  apply Decodes.skip (.check label _)
  apply Decodes.bind (.load w.int _)
  apply Decodes.skip (.check ?_ _) (loadRow_decodes small)
  rw [(count_small small).1]
  omega

theorem loadSampleS3_refuses {s : Option F × Row F} (labels : s.1.isSome = labelled)
    (label : ∀ l ∈ s.1, FeatureTests.isLabel l) (long : 1000000 < s.2.length) (small : s.2.length < 2 ^ 31)
    (rest : List B) :
    loadSampleS3 w labelled (putSample w s ++ rest) = .error (.exception "num_sample_values not ok") := by
  unfold loadSampleS3 putSample
  rw [List.append_assoc, List.append_assoc, bind_ok (loadLabel_decodes labels _), check_pos label,
    bind_ok (pure_apply () _), bind_ok (Codec.load_put w.int _ _), (count_small small).1, check_neg (by omega)]
  rfl

theorem fromS3_decodes {stored : List (Option F × Row F)} (size : Int32) (some_sample : 0 < stored.length)
    (few : stored.length < 1000000)
    (each : ∀ s ∈ stored, s.1.isSome = labelled ∧ (∀ l ∈ s.1, FeatureTests.isLabel l) ∧ s.2.length ≤ 1000000) :
    Decodes (fromS3 w labelled) (w.int.put size ++ (w.int.put (toInt stored.length) ++ stored.flatMap (putSample w)))
      (dataset stored) := by
  obtain ⟨count, rounds_all⟩ := count_small (Nat.lt_trans few (by decide))
  apply Decodes.bind (.load w.int _)
  apply Decodes.bind (.load w.int _)
  apply Decodes.skip (.check ?_ _)
  · rw [rounds_all]
    apply Decodes.last
    apply Decodes.rounds 0 stored
    intro _ s _ member
    obtain ⟨labels, label, short⟩ := each s member
    exact loadSampleS3_decodes labels label short
  · rw [count]
    omega

theorem fromMinibatch_decodes {stored : List (Option F × Row F)} (good : ∀ s ∈ stored, Good labelled s) :
    Decodes (fromMinibatch w labelled stored.length) (stored.flatMap (putSample w)) (dataset stored) := by
  apply Decodes.last
  apply Decodes.rounds 0 stored
  exact fun _ s _ member => loadSample_decodes (good s member)

theorem fromMinibatch_front {rows : List (Option F × Row F)} (good : ∀ s ∈ rows, Good labelled s) {n : Nat}
    (enough : n ≤ rows.length) : fromMinibatch w labelled n (rows.flatMap (putSample w)) =
      .ok (dataset (rows.take n), (rows.drop n).flatMap (putSample w)) := by
  have front : (rows.take n).length = n := by rw [List.length_take, Nat.min_eq_left enough]
  have before : ∀ s ∈ rows.take n, Good labelled s := fun s member => good s (List.mem_of_mem_take member)
  have read := fromMinibatch_decodes (w := w) before ((rows.drop n).flatMap (putSample w))
  rwa [front, ← List.flatMap_append, List.take_append_drop] at read

theorem skipSamples_decodes {stored : List (Option F × Row F)} (good : ∀ s ∈ stored, Good labelled s) (i : Nat) :
    ∃ units, Decodes (rounds (fun _ => skipSample w labelled) i stored.length) (stored.flatMap (putSample w)) units := by
  induction stored generalizing i with
  | nil => exact ⟨[], .pure []⟩
  | cons s rest ih =>
    rw [List.forall_mem_cons] at good
    obtain ⟨units, others⟩ := ih good.2 (i + 1)
    exact ⟨() :: units, (skipSample_decodes good.1).bind others.last⟩

theorem minibatches_found {rows : Nat} (n : Nat) {stored : List (Option F × Row F)} (good : ∀ s ∈ stored, Good labelled s)
    (size : stored.length = n * rows) (i : Nat) (memory : List B) :
    rounds (fun _ => passMinibatch w labelled rows) i n (stored.flatMap (putSample w) ++ memory) =
      .ok ((List.range n).map fun k => (stored.drop (k * rows)).flatMap (putSample w) ++ memory, memory) := by
  induction n generalizing i stored with
  | zero =>
    obtain rfl : stored = [] := List.length_eq_zero_iff.mp (by omega)
    rfl
  | succ n ih =>
    rw [Nat.succ_mul] at size
    have whole : stored = stored.take rows ++ stored.drop rows := (List.take_append_drop rows stored).symm
    have front : (stored.take rows).length = rows := by rw [List.length_take]; omega
    have before : ∀ s ∈ stored.take rows, Good labelled s := fun s member => good s (List.mem_of_mem_take member)
    have after : ∀ s ∈ stored.drop rows, Good labelled s := fun s member => good s (List.mem_of_mem_drop member)
    obtain ⟨units, skipped⟩ := skipSamples_decodes (w := w) before 0
    rw [front] at skipped
    have rest := ih after (by rw [List.length_drop]; omega) (i + 1)
    have first : passMinibatch w labelled rows (stored.flatMap (putSample w) ++ memory) =
        .ok (stored.flatMap (putSample w) ++ memory, (stored.drop rows).flatMap (putSample w) ++ memory) := by
      have taken := skipped ((stored.drop rows).flatMap (putSample w) ++ memory)
      rw [← List.append_assoc, ← List.flatMap_append, ← whole] at taken
      unfold passMinibatch
      rw [bind_ok (show here (stored.flatMap (putSample w) ++ memory) = .ok (_, _) from rfl), bind_ok taken]
      rfl
    unfold rounds
    rw [bind_ok first, bind_ok rest, List.range_succ_eq_map, List.map_cons, List.map_map]
    simp only [Nat.zero_mul, List.drop_zero, List.drop_drop, pure_apply, Function.comp_def, Nat.succ_eq_add_one,
      Nat.succ_mul, Nat.add_comm]

end Readers
end SparseObject

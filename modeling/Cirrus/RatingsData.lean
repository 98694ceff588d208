import Cirrus.TrainingData

/-!
The ratings of a matrix factorization on their way through S3. A key that is made
of an id is written in three ways: the loader puts an object under one, looks for
it under another, and the iterator asks for the third.
-/
namespace RatingsData
open Gradients SparseLR SparseObject Decoder TrainingData
open LambdaData (str str_injective)
variable {B F : Type}

section Keys

/-- The key of `s3_put_object(uint64_t, ..)` -/
def putKey (id : Nat) : List Char := "CIRRUS".toList ++ str id

/-- The key of `s3_get_object_value(uint64_t, ..)` -/
def valueKey (id : Nat) : List Char := "cirrus".toList ++ str id

theorem putKey_injective : Function.Injective putKey := fun _ _ same =>
  Int.ofNat.inj (str_injective (List.append_cancel_left same))

theorem valueKey_ne_putKey (id other : Nat) : valueKey id ≠ putKey other := by
  intro same
  exact absurd (List.head_eq_of_cons_eq same) (by decide)

theorem str_ne_putKey (id other : Nat) : str id ≠ putKey other := by
  intro same
  have first : 'C' ∈ Nat.toDigits 10 id := by
    have written : str (id : Int) = Nat.toDigits 10 id := rfl
    rw [← written, same]
    exact List.mem_cons_self
  exact absurd (Nat.isDigit_of_mem_toDigits (by decide) (by decide) first) (by decide)

end Keys

section Claim
variable (s3 : S3 B) [FeatureTests F] (w : Wire B F) (ds : SparseDataset F) (s3Size minibatchSize : UInt64)

def LoadingNetflixTask.run : s3.Bucket → Option (s3.Bucket × Bool) := load s3 w false ds s3Size putKey

def SameObjects (bucket : s3.Bucket) : Prop :=
  (∀ id < numS3Objs ds s3Size, s3.getObject bucket (str id) = s3.getObject bucket (putKey id)) ∧
    (0 < numS3Objs ds s3Size → s3.getObject bucket (valueKey 0) = s3.getObject bucket (putKey 0))

def Iterates (bucket : s3.Bucket) : Prop :=
  ∃ datasets, Minibatches false ds s3Size minibatchSize (numS3Objs ds s3Size) datasets ∧
    (List.range (numS3Objs ds s3Size * (s3Size.toNat / minibatchSize.toNat))).map
      (iterated w false s3Size minibatchSize s3 bucket (numS3Objs ds s3Size)) = datasets.map some

def AlreadyThere (bucket : s3.Bucket) : Prop :=
  ∀ id < numS3Objs ds s3Size, ∃ object,
    buildSerializedS3Obj w false ds (UInt64.ofNat id * s3Size) (UInt64.ofNat (id + 1) * s3Size) = .ok object ∧
      s3.getObject bucket (str id) = some object ∧ (id = 0 → s3.getObject bucket (valueKey 0) = some object)

def RowsShort : Prop :=
  ∀ s ∈ (samples false ds).take (numS3Objs ds s3Size * s3Size.toNat), s.2.length < 1000000

end Claim

section Readers
variable [FeatureTests F] {w : Wire B F} {labelled : Bool}

theorem loadSample_short {memory rest : List B} {s : Option F × Row F}
    (read : loadSample w labelled memory = .ok (s, rest)) : s.2.length < 1000000 := by
  obtain ⟨label, mid, _, read⟩ := ok_of_bind read
  obtain ⟨numSampleValues, mid, _, read⟩ := ok_of_bind read
  obtain ⟨_, mid, _, read⟩ := ok_of_bind read
  obtain ⟨_, mid, passed, read⟩ := ok_of_bind read
  obtain ⟨sample, mid, entries, read⟩ := ok_of_bind read
  cases read
  have few : 0 ≤ numSampleValues.toInt ∧ numSampleValues.toInt < 1000000 := by
    by_contra many
    rw [check_neg many] at passed
    cases passed
  have length := (rounds_ok (P := fun _ => True) (fun _ _ _ _ _ => trivial) entries).1
  show sample.length < 1000000
  omega

theorem readAt_short {minibatchRows : UInt64} {object : List B} {position : Nat} {minibatch : SparseDataset F}
    (read : readAt w false minibatchRows object position = some minibatch) :
    ∀ s ∈ samples false minibatch, s.2.length < 1000000 := by
  unfold readAt at read
  split at read
  next ds rest done =>
    obtain rfl := Option.some.inj read
    obtain ⟨part, mid, loaded, done⟩ := ok_of_bind done
    cases done
    have each := (rounds_ok (P := fun s : Option F × Row F => s.2.length < 1000000)
      (fun _ _ _ _ read => loadSample_short read) loaded).2
    intro s member
    obtain ⟨row, listed, rfl⟩ := List.mem_map.mp member
    obtain ⟨stored, there, rfl⟩ := List.mem_map.mp listed
    exact each stored there
  next => cases read

end Readers

section Theorem
variable {s3 : S3 B} [FeatureTests F] {w : Wire B F} {ds : SparseDataset F} {s3Size minibatchSize : UInt64}
  {before after : s3.Bucket}

omit [FeatureTests F] in
theorem sameObjects_iff (loaded : Loaded s3 w false ds s3Size putKey before after) :
    SameObjects s3 ds s3Size after ↔ AlreadyThere s3 w ds s3Size before := by
  have iterator_key (id : Nat) := loaded.others (str id) (str_ne_putKey id)
  have check_key := loaded.others (valueKey 0) (valueKey_ne_putKey 0)
  constructor
  · intro ⟨asked, checked⟩ id below
    obtain ⟨object, here, _, built⟩ := loaded.built id below
    refine ⟨object, built, ?_, ?_⟩
    · rw [← iterator_key, asked id below, here]
    · intro zero
      subst zero
      rw [← check_key, checked below, here]
  · intro there
    constructor
    · intro id below
      obtain ⟨object, here, _, built⟩ := loaded.built id below
      obtain ⟨object', built', asked, _⟩ := there id below
      rw [iterator_key, asked, here, Except.ok.inj (built'.symm.trans built)]
    · intro below
      obtain ⟨object, here, _, built⟩ := loaded.built 0 below
      obtain ⟨object', built', _, checked⟩ := there 0 below
      rw [check_key, checked rfl, here, Except.ok.inj (built'.symm.trans built)]

theorem rowsShort_of_iterates (iterates : Iterates s3 w ds s3Size minibatchSize after) : RowsShort ds s3Size := by
  obtain ⟨datasets, minibatches, same⟩ := iterates
  intro s member
  rw [← minibatches.whole] at member
  obtain ⟨minibatch, listed, inside⟩ := List.mem_flatMap.mp member
  have returned : some minibatch ∈ datasets.map some := List.mem_map_of_mem listed
  rw [← same] at returned
  obtain ⟨k, _, result⟩ := List.mem_map.mp returned
  unfold iterated at result
  simp only [Option.bind_eq_bind, Option.bind_eq_some_iff] at result
  obtain ⟨object, _, positions, _, position, _, read⟩ := result
  exact readAt_short read s inside

theorem iterates_of_there (divides : minibatchSize.toNat ∣ s3Size.toNat)
    (loaded : Loaded s3 w false ds s3Size putKey before after) (there : AlreadyThere s3 w ds s3Size before)
    (short : RowsShort ds s3Size) : Iterates s3 w ds s3Size minibatchSize after := by
  rcases Nat.eq_zero_or_pos (numS3Objs ds s3Size) with none | some_object
  · refine ⟨[], ⟨?_, nofun, ?_⟩, ?_⟩ <;>
    · rw [none, Nat.zero_mul]
      rfl
  · have ready : Ready s3 w false ds s3Size minibatchSize after (numS3Objs ds s3Size) := by
      refine ⟨some_object, loaded.few, Nat.pos_of_dvd_of_pos divides loaded.some_size, divides, loaded.some_size, ?_, ?_⟩
      · intro s member
        obtain ⟨row, _, rfl⟩ := List.mem_map.mp (List.mem_of_mem_take member)
        exact ⟨rfl, nofun, short _ member⟩
      · intro j below
        obtain ⟨object, built, asked, _⟩ := there j below
        obtain ⟨object', _, limit, built'⟩ := loaded.built j below
        obtain rfl := Except.ok.inj (built'.symm.trans built)
        rw [← loaded.others (str j) (str_ne_putKey j)] at asked
        exact stored_of_built below asked limit built
    refine ⟨_, ready.minibatches, ?_⟩
    rw [List.map_map]
    apply List.map_congr_left
    intro k listed
    exact ready.iterated_rows (List.mem_range.mp listed)

/-- The loader's objects are asked for under keys that it has not written, so that its data survives only where the
same objects were in the bucket before. -/
theorem ratings_survive_iff (s3 : S3 B) (w : Wire B F) (divides : minibatchSize.toNat ∣ s3Size.toNat)
    {before after : s3.Bucket} (ran : LoadingNetflixTask.run s3 w ds s3Size before = some (after, true)) :
    (SameObjects s3 ds s3Size after ∧ Iterates s3 w ds s3Size minibatchSize after) ↔
      AlreadyThere s3 w ds s3Size before ∧ RowsShort ds s3Size := by
  have loaded := load_loads putKey_injective ran
  constructor
  · intro ⟨same, iterates⟩
    exact ⟨(sameObjects_iff loaded).mp same, rowsShort_of_iterates iterates⟩
  · intro ⟨there, short⟩
    exact ⟨(sameObjects_iff loaded).mpr there, iterates_of_there divides loaded there short⟩

def oneRating : SparseDataset UInt32 := ⟨[[(3, 0x3f800000)]], []⟩

def ratingObject : List UInt8 := [20, 0, 0, 0, 1, 0, 0, 0, 1, 0, 0, 0, 3, 0, 0, 0, 0, 0, 128, 63]

/-- A bucket that another loader has put the object into, under the keys that are asked for -/
def loadedBefore : inMemory.Bucket := fun key => if key = str 0 ∨ key = valueKey 0 then some ratingObject else none

theorem ratings_survive_one : ∃ after : inMemory.Bucket,
    LoadingNetflixTask.run inMemory Wire.littleEndian oneRating 1 loadedBefore = some (after, true) ∧
      inMemory.getObject after (putKey 0) = some ratingObject ∧
      SameObjects inMemory oneRating 1 after ∧ Iterates inMemory Wire.littleEndian oneRating 1 1 after := by
  refine ⟨_, rfl, rfl, ?_⟩
  apply (ratings_survive_iff inMemory Wire.littleEndian (by decide) rfl).mpr
  constructor
  · intro id below
    obtain rfl : id = 0 := Nat.lt_one_iff.mp below
    exact ⟨ratingObject, rfl, rfl, fun _ => rfl⟩
  · intro s member
    obtain rfl := List.mem_singleton.mp (show s ∈ [(none, [((3 : Int32), (0x3f800000 : UInt32))])] from member)
    show 1 < 1000000
    decide

/-- The iterator and the check find nothing in a bucket that was empty. -/
theorem ratings_lost : ∃ after : inMemory.Bucket,
    LoadingNetflixTask.run inMemory Wire.littleEndian oneRating 1 (fun _ => none) = some (after, true) ∧
      ¬ (SameObjects inMemory oneRating 1 after ∧ Iterates inMemory Wire.littleEndian oneRating 1 1 after) := by
  obtain ⟨after, ran⟩ : ∃ after : inMemory.Bucket,
      LoadingNetflixTask.run inMemory Wire.littleEndian oneRating 1 (fun _ => none) = some (after, true) := ⟨_, rfl⟩
  refine ⟨after, ran, ?_⟩
  intro ⟨same, _⟩
  obtain ⟨object, _, asked, _⟩ := (sameObjects_iff (load_loads putKey_injective ran)).mp same 0 (by decide)
  cases asked

end Theorem

end RatingsData

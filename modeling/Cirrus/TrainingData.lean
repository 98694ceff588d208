import Cirrus.LambdaData
import Cirrus.PrefetchProgress
import Cirrus.ShortObjects

/-!
A dataset on its way through S3: the objects that a loading task puts there, and
the minibatches that an iterator over their ids gives.
-/
namespace TrainingData
open Gradients SparseLR SparseObject Decoder Transition S3SparseIterator
open LambdaData (str str_injective)
variable {B F : Type}

/-- A bucket of S3. A get returns the object that was put last, a put that fails is told, and 5 GB are the most
that one put can take. -/
structure S3 (B : Type) where
  Bucket : Type
  putObject : Bucket → List Char → List B → Bucket × Bool
  getObject : Bucket → List Char → Option (List B)
  get_put : ∀ bucket key object, (putObject bucket key object).2 = true →
    getObject (putObject bucket key object).1 key = some object
  get_other : ∀ bucket key object other, other ≠ key →
    getObject (putObject bucket key object).1 other = getObject bucket other
  limit : ∀ bucket key object, (putObject bucket key object).2 = true → object.length ≤ 5 * 2 ^ 30

section Loading
variable (s3 : S3 B) [FeatureTests F] (w : Wire B F) (labelled : Bool) (ds : SparseDataset F) (s3Size : UInt64)
  (key : Nat → List Char)

/-- The turns of the loop from `i` on. That a put has failed is only printed; the flag says that none has. -/
def putObjects : Nat → Nat → s3.Bucket → Except Fault (s3.Bucket × Bool)
  | _, 0, bucket => .ok (bucket, true)
  | i, n + 1, bucket => do
    let object ← buildSerializedS3Obj w labelled ds (UInt64.ofNat i * s3Size) (UInt64.ofNat (i + 1) * s3Size)
    let (bucket, done) := s3.putObject bucket (key i) object
    let (bucket, others) ← putObjects (i + 1) n bucket
    .ok (bucket, done && others)

def checked : Bool := ds.data.all fun row => row.all fun e => decide (0 ≤ e.1.toInt) && FeatureTests.finite e.2

def numS3Objs : Nat := (UInt64.ofNat ds.data.length / s3Size).toNat

/-- The bucket when the dataset is put there and before `check_loading`, which only reads. There is none where the
loop is not entered or left: `i` is an `unsigned int`. -/
def load (bucket : s3.Bucket) : Option (s3.Bucket × Bool) :=
  if checked ds ∧ s3Size ≠ 0 ∧ numS3Objs ds s3Size < 2 ^ 32 then
    (putObjects s3 w labelled ds s3Size key 0 (numS3Objs ds s3Size) bucket).toOption
  else none

def LoadingSparseTaskS3.run : s3.Bucket → Option (s3.Bucket × Bool) := load s3 w true ds s3Size fun i => str i

end Loading

section Stored
variable {s3 : S3 B} {w : Wire B F} {labelled : Bool} {ds : SparseDataset F} {s3Size : UInt64}
  {key : Nat → List Char}

/-- An object in the system's format: two `int`s and the rows. -/
def IsObject (w : Wire B F) (rows : List (Option F × Row F)) (object : List B) : Prop :=
  ∃ size count : Int32, object = w.int.put size ++ (w.int.put count ++ rows.flatMap (putSample w))

def objectRows (labelled : Bool) (ds : SparseDataset F) (s3Size : UInt64) (j : Nat) : List (Option F × Row F) :=
  ((samples labelled ds).drop (j * s3Size.toNat)).take s3Size.toNat

structure Stored (s3 : S3 B) (w : Wire B F) (labelled : Bool) (ds : SparseDataset F) (s3Size : UInt64)
    (key : List Char) (bucket : s3.Bucket) (j : Nat) : Prop where
  enough : (j + 1) * s3Size.toNat ≤ (samples labelled ds).length
  here : ∃ object, s3.getObject bucket key = some object ∧ IsObject w (objectRows labelled ds s3Size j) object ∧
    object.length ≤ 5 * 2 ^ 30

theorem putObjects_other {i n : Nat} {bucket after : s3.Bucket} {done : Bool}
    (ran : putObjects s3 w labelled ds s3Size key i n bucket = .ok (after, done)) {other : List Char}
    (unused : ∀ j, i ≤ j → j < i + n → other ≠ key j) : s3.getObject after other = s3.getObject bucket other := by
  induction n generalizing i bucket done with
  | zero =>
    cases ran
    rfl
  | succ n ih =>
    unfold putObjects at ran
    obtain ⟨object, built, ran⟩ := Loops.ok_of_bind ran
    obtain ⟨⟨rest, others⟩, later, ran⟩ := Loops.ok_of_bind ran
    cases ran
    rw [ih later fun j le less => unused j (by omega) (by omega)]
    exact s3.get_other _ _ _ _ (unused i (Nat.le_refl i) (by omega))

theorem build_object {i : Nat} {object : List B} (fits : (i + 1) * s3Size.toNat < 2 ^ 64)
    (built : buildSerializedS3Obj w labelled ds (UInt64.ofNat i * s3Size) (UInt64.ofNat (i + 1) * s3Size) =
      .ok object) : (i + 1) * s3Size.toNat ≤ (samples labelled ds).length ∧
        IsObject w (objectRows labelled ds s3Size i) object := by
  have product {n : Nat} (le : n ≤ i + 1) : (UInt64.ofNat n * s3Size).toNat = n * s3Size.toNat := by
    have below : n * s3Size.toNat ≤ (i + 1) * s3Size.toNat := Nat.mul_le_mul_right _ le
    rw [UInt64.toNat_mul, UInt64.toNat_ofNat', Nat.mod_mul_mod, Nat.mod_eq_of_lt (by omega)]
  obtain ⟨ordered, enough, size, count, _, same⟩ := build_stores built
  rw [UInt64.lt_iff_toNat_lt, product (Nat.le_succ i), product (Nat.le_refl _), Nat.succ_mul] at ordered
  rw [product (Nat.le_succ i), product (Nat.le_refl _), Nat.succ_mul, Nat.add_sub_cancel_left] at enough same
  rw [List.length_drop] at enough
  refine ⟨?_, size, count, same⟩
  rw [Nat.succ_mul]
  omega

theorem putObjects_built (keys : Function.Injective key) {i n : Nat} {bucket after : s3.Bucket}
    (ran : putObjects s3 w labelled ds s3Size key i n bucket = .ok (after, true)) {j : Nat} (first : i ≤ j)
    (last : j < i + n) : ∃ object, s3.getObject after (key j) = some object ∧ object.length ≤ 5 * 2 ^ 30 ∧
      buildSerializedS3Obj w labelled ds (UInt64.ofNat j * s3Size) (UInt64.ofNat (j + 1) * s3Size) = .ok object := by
  induction n generalizing i bucket with
  | zero => omega
  | succ n ih =>
    unfold putObjects at ran
    obtain ⟨object, built, ran⟩ := Loops.ok_of_bind ran
    obtain ⟨⟨rest, others⟩, later, ran⟩ := Loops.ok_of_bind ran
    have same := Except.ok.inj ran
    rw [Prod.mk.injEq, Bool.and_eq_true] at same
    obtain ⟨rfl, done, rfl⟩ := same
    rcases Nat.eq_or_lt_of_le first with rfl | after
    · have unused : ∀ k, i + 1 ≤ k → k < i + 1 + n → key i ≠ key k := by
        intro k above _ same
        have := keys same
        omega
      have kept := putObjects_other later unused
      rw [s3.get_put _ _ _ done] at kept
      exact ⟨object, kept, s3.limit _ _ _ done, built⟩
    · exact ih later after (by omega)

variable [FeatureTests F]

structure Loaded (s3 : S3 B) (w : Wire B F) (labelled : Bool) (ds : SparseDataset F) (s3Size : UInt64)
    (key : Nat → List Char) (bucket after : s3.Bucket) : Prop where
  few : numS3Objs ds s3Size < 2 ^ 32
  some_size : 0 < s3Size.toNat
  built : ∀ j < numS3Objs ds s3Size, ∃ object, s3.getObject after (key j) = some object ∧ object.length ≤ 5 * 2 ^ 30 ∧
    buildSerializedS3Obj w labelled ds (UInt64.ofNat j * s3Size) (UInt64.ofNat (j + 1) * s3Size) = .ok object
  others : ∀ other, (∀ j, other ≠ key j) → s3.getObject after other = s3.getObject bucket other

theorem load_loads (keys : Function.Injective key) {bucket after : s3.Bucket}
    (loaded : load s3 w labelled ds s3Size key bucket = some (after, true)) :
    Loaded s3 w labelled ds s3Size key bucket after := by
  unfold load at loaded
  split at loaded
  next entered =>
    obtain ⟨_, some_size, few⟩ := entered
    have positive : 0 < s3Size.toNat := by
      apply Nat.pos_of_ne_zero
      intro none
      exact some_size (UInt64.toNat_inj.mp none)
    cases ran : putObjects s3 w labelled ds s3Size key 0 (numS3Objs ds s3Size) bucket with
    | error fault =>
      rw [ran] at loaded
      cases loaded
    | ok result =>
      rw [ran] at loaded
      cases loaded
      exact ⟨few, positive, fun j below => putObjects_built keys ran (Nat.zero_le j) (by omega),
        fun other unused => putObjects_other ran fun j _ _ => unused j⟩
  next => cases loaded

omit [FeatureTests F] in
theorem stored_of_built {other : List Char} {bucket : s3.Bucket} {j : Nat} (below : j < numS3Objs ds s3Size)
    {object : List B} (here : s3.getObject bucket other = some object) (limit : object.length ≤ 5 * 2 ^ 30)
    (built : buildSerializedS3Obj w labelled ds (UInt64.ofNat j * s3Size) (UInt64.ofNat (j + 1) * s3Size) =
      .ok object) : Stored s3 w labelled ds s3Size other bucket j := by
  have fits : (j + 1) * s3Size.toNat < 2 ^ 64 := by
    have inside : (j + 1) * s3Size.toNat ≤ numS3Objs ds s3Size * s3Size.toNat := Nat.mul_le_mul_right _ below
    rw [numS3Objs, UInt64.toNat_div] at inside
    exact Nat.lt_of_le_of_lt (Nat.le_trans inside (Nat.div_mul_le_self _ _)) (UInt64.toNat_lt _)
  obtain ⟨enough, rows⟩ := build_object fits built
  exact ⟨enough, object, here, rows, limit⟩

end Stored

section Iterating
variable [FeatureTests F] (w : Wire B F) (labelled : Bool) (s3Rows minibatchRows : UInt64)

def offsets (object : List B) : Option (List Nat) :=
  match ShortObjects.cut w labelled s3Rows minibatchRows object with
  | .ok pointers => some (pointers.map fun data => object.length - data.length)
  | .error _ => none

theorem offsets_length {object : List B} {positions : List Nat}
    (found : offsets w labelled s3Rows minibatchRows object = some positions) :
    positions.length = (s3Rows / minibatchRows).toNat := by
  unfold offsets at found
  split at found
  next pointers walked =>
    obtain rfl := Option.some.inj found
    unfold ShortObjects.cut at walked
    split at walked
    next => cases walked
    next =>
      cases ran : pushSamples w labelled (s3Rows / minibatchRows).toNat minibatchRows.toNat object with
      | error fault =>
        rw [ran] at walked
        cases walked
      | ok result =>
        obtain ⟨found, rest⟩ := result
        rw [ran] at walked
        obtain rfl := Except.ok.inj walked
        obtain ⟨_, _, _, ran⟩ := ok_of_bind ran
        obtain ⟨_, _, _, ran⟩ := ok_of_bind ran
        rw [List.length_map]
        exact (rounds_ok (P := fun _ => True) (fun _ _ _ _ _ => trivial) ran).1
  next => cases found

/-- `S3SparseIterator(left_id, right_id, ..)` for an access in order -/
def iterator (leftId rightId : UInt64) : Iterator (List B) Nat where
  leftId
  rightId
  randomAccess := false
  s3Rows
  minibatchRows
  starts := offsets w labelled s3Rows minibatchRows
  starts_length := fun _ _ => offsets_length w labelled s3Rows minibatchRows

/-- The dataset that `getNext` builds from a pointer. -/
def readAt (object : List B) (position : Nat) : Option (SparseDataset F) :=
  match fromMinibatch w labelled minibatchRows.toNat (object.drop position) with
  | .ok (ds, _) => some ds
  | .error _ => none

def built (e : Option (List B) × Minibatch Nat) : Option (SparseDataset F) :=
  e.1.bind fun object => readAt w labelled minibatchRows object e.2.position

def given (s3 : S3 B) (bucket : s3.Bucket) (id : UInt64) (object : List B) : Prop :=
  s3.getObject bucket (str id.toNat) = some object

def iterated (s3 : S3 B) (bucket : s3.Bucket) (count k : Nat) : Option (SparseDataset F) := do
  let object ← s3.getObject bucket (str (k / (s3Rows / minibatchRows).toNat % count : Nat))
  let positions ← offsets w labelled s3Rows minibatchRows object
  let position ← positions[k % (s3Rows / minibatchRows).toNat]?
  readAt w labelled minibatchRows object position

end Iterating

section Minibatches
variable {w : Wire B F} {labelled : Bool} {s3Rows minibatchRows : UInt64} {rows : List (Option F × Row F)}

theorem samples_dataset {part : List (Option F × Row F)} (labels : ∀ s ∈ part, s.1.isSome = labelled) :
    samples labelled (dataset part) = part := by
  induction part with
  | nil => cases labelled <;> rfl
  | cons s rest ih =>
    rw [List.forall_mem_cons] at labels
    obtain ⟨label, row⟩ := s
    cases label with
    | none =>
      obtain rfl : false = labelled := labels.1
      exact congrArg ((none, row) :: ·) (ih labels.2)
    | some l =>
      obtain rfl : true = labelled := labels.1
      exact congrArg ((some l, row) :: ·) (ih labels.2)

variable [FeatureTests F]

theorem offsets_object (good : ∀ s ∈ rows, Good labelled s) (some_row : minibatchRows ≠ 0)
    (size : rows.length = (s3Rows / minibatchRows).toNat * minibatchRows.toNat) {object : List B}
    (stored : IsObject w rows object) :
    ∃ positions, offsets w labelled s3Rows minibatchRows object = some positions ∧
      ∀ (k : Nat) position, positions[k]? = some position → ∃ rest,
        fromMinibatch w labelled minibatchRows.toNat (object.drop position) =
          .ok (dataset ((rows.drop (k * minibatchRows.toNat)).take minibatchRows.toNat), rest) := by
  obtain ⟨a, b, rfl⟩ := stored
  have walked := ShortObjects.walk_enough (w := w) good (Nat.le_of_eq size.symm)
  have pointers : ShortObjects.cut w labelled s3Rows minibatchRows
      (w.int.put a ++ (w.int.put b ++ rows.flatMap (putSample w))) =
        .ok ((List.range (s3Rows / minibatchRows).toNat).map fun k =>
          (rows.drop (k * minibatchRows.toNat)).flatMap (putSample w)) := by
    unfold ShortObjects.cut pushSamples
    rw [if_neg some_row, bind_ok (Codec.load_put w.int _ _), bind_ok (Codec.load_put w.int _ _), walked]
    rfl
  refine ⟨_, by rw [offsets, pointers], ?_⟩
  intro k position there
  rw [List.map_map, List.getElem?_map, Option.map_eq_some_iff] at there
  obtain ⟨k', listed, rfl⟩ := there
  obtain ⟨below, rfl⟩ := List.getElem?_eq_some_iff.mp listed
  rw [List.length_range] at below
  rw [List.getElem_range]
  have data : (rows.drop (k * minibatchRows.toNat)).flatMap (putSample w) <:+
      w.int.put a ++ (w.int.put b ++ rows.flatMap (putSample w)) := by
    refine ⟨w.int.put a ++ (w.int.put b ++ (rows.take (k * minibatchRows.toNat)).flatMap (putSample w)), ?_⟩
    rw [List.append_assoc, List.append_assoc, ← List.flatMap_append, List.take_append_drop]
  have inside : (k + 1) * minibatchRows.toNat ≤ (s3Rows / minibatchRows).toNat * minibatchRows.toNat :=
    Nat.mul_le_mul_right _ below
  rw [Nat.succ_mul] at inside
  refine ⟨((rows.drop (k * minibatchRows.toNat)).drop minibatchRows.toNat).flatMap (putSample w), ?_⟩
  show fromMinibatch w labelled minibatchRows.toNat (List.drop (_ - _) _) = _
  rw [← List.suffix_iff_eq_drop.mp data]
  exact fromMinibatch_front (fun s member => good s (List.mem_of_mem_drop member)) (by rw [List.length_drop]; omega)

end Minibatches

section Iteration
variable {s3 : S3 B} {w : Wire B F} {labelled : Bool} {ds : SparseDataset F} {s3Size minibatchSize : UInt64}
  {bucket : s3.Bucket} {count : Nat}

def minibatchRows (labelled : Bool) (ds : SparseDataset F) (minibatchSize : UInt64) (k : Nat) :
    List (Option F × Row F) :=
  ((samples labelled ds).drop (k * minibatchSize.toNat)).take minibatchSize.toNat

/-- The minibatches are the rows of the objects, each row once and with its label. -/
structure Minibatches (labelled : Bool) (ds : SparseDataset F) (s3Size minibatchSize : UInt64) (count : Nat)
    (datasets : List (SparseDataset F)) : Prop where
  length : datasets.length = count * (s3Size.toNat / minibatchSize.toNat)
  rows : ∀ minibatch ∈ datasets, minibatch.data.length = minibatchSize.toNat
  whole : datasets.flatMap (samples labelled) = (samples labelled ds).take (count * s3Size.toNat)

section Slices

theorem concat_slices {A : Type} (l : List A) (m n : Nat) :
    ((List.range n).flatMap fun k => (l.drop (k * m)).take m) = l.take (n * m) := by
  induction n with
  | zero => simp
  | succ n ih =>
    rw [List.range_succ, List.flatMap_append, ih, List.flatMap_singleton, Nat.succ_mul, List.take_add]

theorem slice_mem {A : Type} {l : List A} {a b c : Nat} (within : a + b ≤ c) {x : A} (member : x ∈ (l.drop a).take b) :
    x ∈ l.take c := by
  have longer : (l.drop a).take b = ((l.take c).take (a + b)).drop a := by
    rw [List.take_take, Nat.min_eq_left within, List.drop_take, Nat.add_sub_cancel_left]
  rw [longer] at member
  exact List.mem_of_mem_take (List.mem_of_mem_drop member)

end Slices

variable [FeatureTests F]

theorem asked (some_object : 0 < count) (few : count < 2 ^ 32) (k : Nat) :
    (SequentialIds.idAt 0 (UInt64.ofNat count) k).toNat = k % count := by
  have rightId : (UInt64.ofNat count).toNat = count := UInt64.toNat_ofNat_of_lt' (Nat.lt_trans few (by decide))
  have ordered : (0 : UInt64) < UInt64.ofNat count := by
    rw [UInt64.lt_iff_toNat_lt, rightId]
    exact some_object
  rw [SequentialIds.idAt_toNat ordered, rightId]
  simp

/-- What a call of `getNext` returns does not depend on how the threads have run. -/
theorem returned_iterated (some_object : 0 < count) (few : count < 2 ^ 32)
    (positive : 1 ≤ (s3Size / minibatchSize).toNat) {s : State (List B) Nat}
    (seq : Sequential (iterator w labelled s3Size minibatchSize 0 (UInt64.ofNat count)) (given s3 bucket) s) {k : Nat}
    {e : Option (List B) × Minibatch Nat} (there : s.returned[k]? = some e) :
    built w labelled minibatchSize e = iterated w labelled s3Size minibatchSize s3 bucket count k := by
  obtain ⟨f, source, read⟩ := seq.inv.strings.returned k e there
  have pushed : s.pushed[k]? = some e.2 := by
    have taken : (s.returned.map Prod.snd)[k]? = some e.2 := by rw [List.getElem?_map, there, Option.map_some]
    have delivers : Delivers (iterator w labelled s3Size minibatchSize 0 (UInt64.ofNat count)) s :=
      seq.inv.delivers positive seq.clear
    rw [delivers.order] at taken
    rwa [List.getElem?_take_of_lt (List.getElem?_eq_some_iff.mp there).1] at taken
  obtain ⟨f', positions, source', walked, placed⟩ := (pushed_describes seq.inv.strings pushed).source
  obtain rfl : f' = f := Option.some.inj (source'.symm.trans source)
  obtain ⟨id, got⟩ := seq.supplied.ids _ _ source
  have same : f'.1.toNat = k / (s3Size / minibatchSize).toNat % count := by
    rw [id]
    exact asked some_object few _
  unfold given at got
  rw [same] at got
  have found : offsets w labelled s3Size minibatchSize f'.2 = some positions := walked
  have there : positions[k % (s3Size / minibatchSize).toNat]? = some e.2.position := placed
  unfold built iterated
  rw [read, got, Option.bind_some, Option.bind_eq_bind, Option.bind_some, found, Option.bind_eq_bind, Option.bind_some,
    there]
  rfl

structure Ready (s3 : S3 B) (w : Wire B F) (labelled : Bool) (ds : SparseDataset F) (s3Size minibatchSize : UInt64)
    (bucket : s3.Bucket) (count : Nat) : Prop where
  some_object : 0 < count
  few : count < 2 ^ 32
  some_row : 1 ≤ minibatchSize.toNat
  divides : minibatchSize.toNat ∣ s3Size.toNat
  some_size : 0 < s3Size.toNat
  good : ∀ s ∈ (samples labelled ds).take (count * s3Size.toNat), Good labelled s
  stored : ∀ j < count, Stored s3 w labelled ds s3Size (str j) bucket j

namespace Ready
variable (ready : Ready s3 w labelled ds s3Size minibatchSize bucket count)

include ready in
theorem perObject : (s3Size / minibatchSize).toNat * minibatchSize.toNat = s3Size.toNat := by
  rw [UInt64.toNat_div]
  exact Nat.div_mul_cancel ready.divides

include ready in
theorem positive : 1 ≤ (iterator w labelled s3Size minibatchSize 0 (UInt64.ofNat count)).nMinibatches :=
  nMinibatches_positive ready.some_row (Nat.le_of_dvd ready.some_size ready.divides)

theorem small (fits : 3 * (s3Size.toNat / minibatchSize.toNat) + 199 < 2 ^ 31) :
    3 * (iterator w labelled s3Size minibatchSize 0 (UInt64.ofNat count)).nMinibatches + 199 < 2 ^ 31 := by
  show 3 * (s3Size / minibatchSize).toNat + 199 < 2 ^ 31
  rwa [UInt64.toNat_div]

include ready in
theorem enough : count * s3Size.toNat ≤ (samples labelled ds).length := by
  have some_object := ready.some_object
  have last := (ready.stored (count - 1) (by omega)).enough
  rwa [Nat.sub_add_cancel some_object] at last

include ready in
theorem given_object {j : Nat} (below : j < count) {object : List B}
    (got : s3.getObject bucket (str j) = some object) :
    ∃ positions, offsets w labelled s3Size minibatchSize object = some positions ∧
      ∀ (k : Nat) position, positions[k]? = some position → readAt w labelled minibatchSize object position =
        some (dataset (((objectRows labelled ds s3Size j).drop (k * minibatchSize.toNat)).take minibatchSize.toNat)) := by
  obtain ⟨enough, stored, here, rows, _⟩ := ready.stored j below
  rw [here, Option.some.injEq] at got
  subst got
  have some_row : minibatchSize ≠ 0 := by
    intro none
    have := ready.some_row
    rw [none] at this
    exact absurd this (by decide)
  have good : ∀ s ∈ objectRows labelled ds s3Size j, Good labelled s := by
    intro s member
    have within : (j + 1) * s3Size.toNat ≤ count * s3Size.toNat := Nat.mul_le_mul_right _ below
    rw [Nat.succ_mul] at within
    exact ready.good s (slice_mem within member)
  have size : (objectRows labelled ds s3Size j).length = (s3Size / minibatchSize).toNat * minibatchSize.toNat := by
    rw [Nat.succ_mul] at enough
    rw [ready.perObject, objectRows, List.length_take, List.length_drop]
    omega
  obtain ⟨positions, found, reads⟩ := offsets_object good some_row size rows
  refine ⟨positions, found, ?_⟩
  intro k position there
  obtain ⟨rest, done⟩ := reads k position there
  unfold readAt
  rw [done]

include ready in
theorem object_slice {k : Nat} :
    ((objectRows labelled ds s3Size (k / (s3Size / minibatchSize).toNat)).drop
      (k % (s3Size / minibatchSize).toNat * minibatchSize.toNat)).take minibatchSize.toNat =
        minibatchRows labelled ds minibatchSize k := by
  have whole := ready.perObject
  have inside := Nat.mod_lt k ready.positive
  have split := Nat.div_add_mod k (s3Size / minibatchSize).toNat
  have bound : (k % (s3Size / minibatchSize).toNat + 1) * minibatchSize.toNat ≤ s3Size.toNat := by
    rw [← whole]
    exact Nat.mul_le_mul_right _ inside
  rw [Nat.succ_mul] at bound
  have place : k / (s3Size / minibatchSize).toNat * s3Size.toNat +
      k % (s3Size / minibatchSize).toNat * minibatchSize.toNat = k * minibatchSize.toNat := by
    rw [← whole, ← Nat.mul_assoc, ← Nat.add_mul, Nat.mul_comm (k / _), split]
  rw [objectRows, List.drop_take, List.drop_drop, List.take_take, place, Nat.min_eq_left (by omega), minibatchRows]

include ready in
theorem iterated_rows {k : Nat} (inside : k < count * (s3Size.toNat / minibatchSize.toNat)) :
    iterated w labelled s3Size minibatchSize s3 bucket count k =
      some (dataset (minibatchRows labelled ds minibatchSize k)) := by
  have below : k / (s3Size / minibatchSize).toNat < count := by
    rw [← UInt64.toNat_div] at inside
    exact (Nat.div_lt_iff_lt_mul ready.positive).mpr inside
  obtain ⟨object, here, _⟩ := (ready.stored _ below).here
  obtain ⟨positions, found, reads⟩ := ready.given_object below here
  have place : k % (s3Size / minibatchSize).toNat < positions.length := by
    rw [offsets_length _ _ _ _ found]
    exact Nat.mod_lt _ ready.positive
  have there := List.getElem?_eq_getElem place
  unfold iterated
  rw [Nat.mod_eq_of_lt below, here, Option.bind_eq_bind, Option.bind_some, found, Option.bind_eq_bind, Option.bind_some,
    there, Option.bind_eq_bind, Option.bind_some, reads _ _ there, ready.object_slice]

include ready in
theorem minibatches : Minibatches labelled ds s3Size minibatchSize count
    ((List.range (count * (s3Size.toNat / minibatchSize.toNat))).map fun k =>
      dataset (minibatchRows labelled ds minibatchSize k)) := by
  have whole := ready.perObject
  rw [UInt64.toNat_div] at whole
  have total : count * (s3Size.toNat / minibatchSize.toNat) * minibatchSize.toNat = count * s3Size.toNat := by
    rw [Nat.mul_assoc, whole]
  have rows := ready.enough
  have bound {k : Nat} (listed : k ∈ List.range (count * (s3Size.toNat / minibatchSize.toNat))) :
      k * minibatchSize.toNat + minibatchSize.toNat ≤ count * s3Size.toNat := by
    rw [← total, ← Nat.succ_mul]
    exact Nat.mul_le_mul_right _ (List.mem_range.mp listed)
  constructor
  · rw [List.length_map, List.length_range]
  · intro minibatch member
    obtain ⟨k, listed, rfl⟩ := List.mem_map.mp member
    have within := bound listed
    show ((minibatchRows labelled ds minibatchSize k).map Prod.snd).length = _
    rw [List.length_map, minibatchRows, List.length_take, List.length_drop]
    omega
  · rw [List.flatMap_map, ← total, ← concat_slices]
    apply List.flatMap_congr
    intro k listed
    apply samples_dataset
    intro s member
    exact (ready.good s (slice_mem (bound listed) member)).labelled

/-- Wherever a run has come, it can be continued until so many minibatches are returned. -/
theorem returns (ready : Ready s3 w labelled ds s3Size minibatchSize bucket count)
    (fits : 3 * (s3Size.toNat / minibatchSize.toNat) + 199 < 2 ^ 31) {s : State (List B) Nat}
    (reached : Reachable (iterator w labelled s3Size minibatchSize 0 (UInt64.ofNat count)).step
      (iterator w labelled s3Size minibatchSize 0 (UInt64.ofNat count)).AtStart (Orderly (given s3 bucket)) s)
    (minibatches : Nat) :
    ∃ t, Reachable (iterator w labelled s3Size minibatchSize 0 (UInt64.ofNat count)).step (· = s)
      (Orderly (given s3 bucket)) t ∧ (minibatches ≤ t.returned.length ∨ intMax ≤ t.strVersion) := by
  have below (k : Nat) : k % count < count := Nat.mod_lt k ready.some_object
  apply S3SparseIterator.returns _ _ (small fits) ready.positive rfl _ reached
  · intro k
    obtain ⟨object, here, _⟩ := (ready.stored _ (below k)).here
    refine ⟨object, ?_⟩
    show s3.getObject bucket (str (SequentialIds.idAt 0 (UInt64.ofNat count) k).toNat) = some object
    rw [asked ready.some_object ready.few]
    exact here
  · intro k object got
    have got : s3.getObject bucket (str (SequentialIds.idAt 0 (UInt64.ofNat count) k).toNat) = some object := got
    rw [asked ready.some_object ready.few] at got
    obtain ⟨positions, found, _⟩ := ready.given_object (below k) got
    exact ⟨positions, found⟩
  · intro same
    have some_object := ready.some_object
    have rightId : (UInt64.ofNat count).toNat = count :=
      UInt64.toNat_ofNat_of_lt' (Nat.lt_trans ready.few (by decide))
    rw [show UInt64.ofNat count = 0 from same] at rightId
    exact absurd rightId (Nat.ne_of_lt some_object)

end Ready

/-- The minibatches that are returned in the first round are the rows of the objects. -/
def Survives (w : Wire B F) (labelled : Bool) (ds : SparseDataset F) (s3Size minibatchSize : UInt64) (count : Nat)
    (s : State (List B) Nat) : Prop :=
  ∃ datasets, Minibatches labelled ds s3Size minibatchSize count datasets ∧
    (s.returned.take (count * (s3Size.toNat / minibatchSize.toNat))).map (built w labelled minibatchSize) =
      datasets.map some

theorem Ready.survives (ready : Ready s3 w labelled ds s3Size minibatchSize bucket count)
    (fits : 3 * (s3Size.toNat / minibatchSize.toNat) + 199 < 2 ^ 31) {s : State (List B) Nat}
    (reached : Reachable (iterator w labelled s3Size minibatchSize 0 (UInt64.ofNat count)).step
      (iterator w labelled s3Size minibatchSize 0 (UInt64.ofNat count)).AtStart (Orderly (given s3 bucket)) s)
    (enough : count * (s3Size.toNat / minibatchSize.toNat) ≤ s.returned.length) :
    Survives w labelled ds s3Size minibatchSize count s := by
  have seq := sequential_reachable (Ready.small fits) ready.positive rfl reached
  refine ⟨_, ready.minibatches, ?_⟩
  apply List.ext_getElem?
  intro k
  rw [List.getElem?_map, List.getElem?_map, List.getElem?_map]
  by_cases inside : k < count * (s3Size.toNat / minibatchSize.toNat)
  · have there := List.getElem?_eq_getElem (show k < s.returned.length by omega)
    have result : built w labelled minibatchSize s.returned[k] =
        iterated w labelled s3Size minibatchSize s3 bucket count k :=
      returned_iterated ready.some_object ready.few ready.positive seq there
    rw [List.getElem?_take_of_lt inside, there, List.getElem?_range inside, Option.map_some, Option.map_some,
      Option.map_some, result, ready.iterated_rows inside]
  · rw [List.getElem?_eq_none (by rw [List.length_take]; omega), List.getElem?_eq_none (by rw [List.length_range]; omega)]
    rfl

end Iteration

section Labelled
variable {s3 : S3 B} {w : Wire B F} {ds : SparseDataset F} {s3Size minibatchSize : UInt64}

theorem labelled_length {rows : List (Option F × Row F)} (labels : ∀ s ∈ rows, s.1.isSome = true) :
    8 * rows.length ≤ (rows.flatMap (putSample w)).length := by
  induction rows with
  | nil => exact Nat.le_refl _
  | cons s rest ih =>
    rw [List.forall_mem_cons] at labels
    have others := ih labels.2
    obtain ⟨l, label⟩ := Option.isSome_iff_exists.mp labels.1
    have sample : 8 ≤ (putSample w s).length := by
      unfold putSample
      rw [label, List.length_append, List.length_append, w.int.put_length]
      show 8 ≤ (w.feature.put l).length + _
      rw [w.feature.put_length]
      omega
    rw [List.length_cons, List.flatMap_cons, List.length_append]
    omega

variable [FeatureTests F]

/-- An object that one put can take has fewer rows than would let the counter of ready minibatches overflow. -/
theorem labelled_fits (good : ∀ s ∈ samples true ds, Good true s) {key : List Char} {bucket : s3.Bucket} {j : Nat}
    (stored : Stored s3 w true ds s3Size key bucket j) : 8 * s3Size.toNat ≤ 5 * 2 ^ 30 := by
  obtain ⟨enough, object, _, ⟨size, count, rfl⟩, limit⟩ := stored
  have labels : ∀ s ∈ objectRows true ds s3Size j, s.1.isSome = true := fun s member =>
    (good s (List.mem_of_mem_drop (List.mem_of_mem_take member))).labelled
  have bytes := labelled_length (w := w) labels
  have length : (objectRows true ds s3Size j).length = s3Size.toNat := by
    rw [Nat.succ_mul] at enough
    rw [objectRows, List.length_take, List.length_drop]
    omega
  rw [List.length_append, List.length_append] at limit
  omega

/-- The objects that the loader has put are given back row by row by an iterator over their ids, in every run in which
the accesses to `list_strings` do not overlap, and the run does not come to a stop before that, as long as the versions
of the strings are `int`s. -/
theorem training_data_survives (s3 : S3 B) (w : Wire B F) {ds : SparseDataset F}
    (good : ∀ s ∈ samples true ds, Good true s) {s3Size minibatchSize : UInt64} (some_row : 1 ≤ minibatchSize.toNat)
    (divides : minibatchSize.toNat ∣ s3Size.toNat) {before after : s3.Bucket}
    (loaded : LoadingSparseTaskS3.run s3 w ds s3Size before = some (after, true)) {s : State (List B) Nat}
    (reached : Reachable (iterator w true s3Size minibatchSize 0 (UInt64.ofNat (numS3Objs ds s3Size))).step
      (iterator w true s3Size minibatchSize 0 (UInt64.ofNat (numS3Objs ds s3Size))).AtStart (Orderly (given s3 after)) s) :
    (∃ t, Reachable (iterator w true s3Size minibatchSize 0 (UInt64.ofNat (numS3Objs ds s3Size))).step (· = s)
        (Orderly (given s3 after)) t ∧
      (numS3Objs ds s3Size * (s3Size.toNat / minibatchSize.toNat) ≤ t.returned.length ∨ intMax ≤ t.strVersion)) ∧
    (numS3Objs ds s3Size * (s3Size.toNat / minibatchSize.toNat) ≤ s.returned.length →
      Survives w true ds s3Size minibatchSize (numS3Objs ds s3Size) s) := by
  have keys : Function.Injective fun i : Nat => str i := fun _ _ same =>
    Int.ofNat.inj (str_injective same)
  obtain ⟨few, some_size, built, _⟩ := load_loads keys loaded
  have stored : ∀ j < numS3Objs ds s3Size, Stored s3 w true ds s3Size (str j) after j := by
    intro j below
    obtain ⟨object, here, limit, built⟩ := built j below
    exact stored_of_built below here limit built
  rcases Nat.eq_zero_or_pos (numS3Objs ds s3Size) with none | some_object
  · rw [none, Nat.zero_mul]
    refine ⟨⟨s, .start rfl, .inl (Nat.zero_le _)⟩, fun _ => ⟨[], ⟨?_, nofun, ?_⟩, ?_⟩⟩ <;>
    · rw [Nat.zero_mul]
      rfl
  · have limit := labelled_fits good (stored 0 some_object)
    have minibatches := Nat.div_le_self s3Size.toNat minibatchSize.toNat
    have ready : Ready s3 w true ds s3Size minibatchSize after (numS3Objs ds s3Size) :=
      ⟨some_object, few, some_row, divides, some_size, fun s member => good s (List.mem_of_mem_take member), stored⟩
    exact ⟨ready.returns (by omega) reached _, ready.survives (by omega) reached⟩

def inMemory : S3 UInt8 where
  Bucket := List Char → Option (List UInt8)
  putObject bucket key object :=
    if object.length ≤ 5 * 2 ^ 30 then (Function.update bucket key (some object), true) else (bucket, false)
  getObject bucket key := bucket key
  get_put bucket key object done := by
    split at done
    next fits =>
      rw [if_pos fits]
      exact Function.update_self ..
    next => cases done
  get_other bucket key object other different := by
    split
    next => exact Function.update_of_ne different _ _
    next => rfl
  limit bucket key object done := by
    split at done
    next fits => exact fits
    next => cases done

def twoRows : SparseDataset UInt32 := ⟨[[], [(3, 0x3f800000)]], [0, 0x3f800000]⟩

theorem training_data_survives_two : ∃ after : inMemory.Bucket,
    LoadingSparseTaskS3.run inMemory Wire.littleEndian twoRows 2 (fun _ => none) = some (after, true) ∧
    ∀ s, (iterator Wire.littleEndian true 2 1 0 (UInt64.ofNat (numS3Objs twoRows 2))).AtStart s →
      ∃ t, Reachable (iterator Wire.littleEndian true 2 1 0 (UInt64.ofNat (numS3Objs twoRows 2))).step (· = s)
        (Orderly (given inMemory after)) t ∧ (2 ≤ t.returned.length ∨ intMax ≤ t.strVersion) := by
  obtain ⟨result, ran, done⟩ : ∃ result,
      LoadingSparseTaskS3.run inMemory Wire.littleEndian twoRows 2 (fun _ => none) = some result ∧ result.2 = true :=
    ⟨_, rfl, rfl⟩
  obtain ⟨after, all⟩ := result
  obtain rfl : all = true := done
  refine ⟨after, ran, ?_⟩
  intro s start
  have good : ∀ s ∈ samples true twoRows, Good true s := ShortObjects.twoRows_good
  exact (training_data_survives inMemory Wire.littleEndian good (by decide) (by decide) ran (.start start)).1

section Races

instance {B : Type} [DecidableEq B] (s3 : S3 B) (bucket : s3.Bucket) (id : UInt64) (object : List B) :
    Decidable (given s3 bucket id object) :=
  inferInstanceAs (Decidable (s3.getObject bucket (str id.toNat) = some object))

def bucketOfTwo : inMemory.Bucket :=
  ((LoadingSparseTaskS3.run inMemory Wire.littleEndian twoRows 1 fun _ => none).getD (fun _ => none, false)).1

def firstObject : List UInt8 := [16, 0, 0, 0, 1, 0, 0, 0, 0, 0, 0, 0, 0, 0, 0, 0]

def secondObject : List UInt8 :=
  [24, 0, 0, 0, 1, 0, 0, 0, 0, 0, 128, 63, 1, 0, 0, 0, 3, 0, 0, 0, 0, 0, 128, 63]

def overTwo : Iterator (List UInt8) Nat :=
  iterator Wire.littleEndian true 1 1 0 (UInt64.ofNat (numS3Objs twoRows 1))

def overTwoStarts : State (List UInt8) Nat :=
  { minibatchesList := .ofCapacity 100000 CircularBuffer.hundredThousand_pos fun _ => [], current := 0 }

/-- The first object is pushed and its row returned. The second one is put into the map while the next call erases the
first. -/
def racingRun : List (Label (List UInt8)) :=
  [.prefetch (.sample 0), .prefetch (.object firstObject)] ++ List.replicate 11 (.prefetch .go) ++
    List.replicate 11 .consumer ++
    [.prefetch (.sample 0), .prefetch (.object secondObject), .prefetch .go, .consumer]

theorem training_data_races :
    LoadingSparseTaskS3.run inMemory Wire.littleEndian twoRows 1 (fun _ => none) = some (bucketOfTwo, true) ∧
    ∃ s, Reachable overTwo.step overTwo.AtStart (Gets (given inMemory bucketOfTwo)) s ∧
      ¬ ∃ t, Reachable overTwo.step (· = s) (Gets (given inMemory bucketOfTwo)) t ∧
        (numS3Objs twoRows 1 * ((1 : UInt64).toNat / (1 : UInt64).toNat) ≤ t.returned.length ∨
          intMax ≤ t.strVersion) := by
  have outcome : (followIf overTwo.step (Gets (given inMemory bucketOfTwo)) overTwoStarts racingRun).map
      (fun s => (s.racing, s.returned.length, s.strVersion)) = some (true, 1, 1) := by decide
  obtain ⟨s, taken, facts⟩ := Option.map_eq_some_iff.mp outcome
  simp only [Prod.mk.injEq] at facts
  obtain ⟨racing, one, version⟩ := facts
  refine ⟨rfl, s, Reachable.followIf (.start ⟨fun _ => [], rfl⟩) taken, ?_⟩
  rintro ⟨t, after, enough | last⟩
  · rw [ends_of_racing racing after, one] at enough
    exact absurd enough (by decide)
  · rw [ends_of_racing racing after, version] at last
    exact absurd last (by decide)

end Races

end Labelled

end TrainingData

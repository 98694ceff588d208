import Cirrus.LambdaData
import Cirrus.PythonObjects
import Mathlib.Data.List.Induction
import Mathlib.Logic.Function.Basic

/-!
`Preprocessing.load_libsvm`: the rows of a dataset go into objects of
`ROWS_PER_CHUNK` rows, through a buffer that is filled and replaced.
-/
namespace LoadLibsvm
open Gradients SparseLR SparseObject PythonObjects Decoder LambdaData
variable {V : Type}

structure Sample (V : Type) where
  features : PyRow V
  label : V

abbrev Bucket := Text → Option (List UInt8)

@[irreducible] def rowsPerChunk : Nat := 50000

/-- The variables of the loop. A place of the buffer that is not filled holds 0, not a row. -/
structure Loader (V : Type) where
  batch : List (Option (PyRow V)) := List.replicate rowsPerChunk none
  batchNum : Nat := 1
  batchSize : Nat := 0
  bucket : Bucket

def rowsOf : List (Option (PyRow V)) → Except Fault (List (PyRow V))
  | [] => .ok []
  | some row :: rest => do
    let rows ← rowsOf rest
    .ok (row :: rows)
  | none :: _ => .error (.exception "TypeError: object of type 'int' has no len()")

section Loop
variable (c : Narrowing V)

/-- Puts a buffer as object `batch_num`. -/
def putBatch (bucket : Bucket) (batchNum : Nat) (batch : List (Option (PyRow V))) : Except Fault Bucket := do
  let rows ← rowsOf batch
  let serialized ← serializeData c rows none
  .ok (Function.update bucket (str batchNum) (some serialized))

def addRow (s : Loader V) (currRow : PyRow V) : Except Fault (Loader V) := do
  let batch := s.batch.set s.batchSize (some currRow)
  if s.batchSize + 1 = rowsPerChunk then
    let bucket ← putBatch c s.bucket s.batchNum batch
    .ok { batchNum := s.batchNum + 1, bucket }
  else .ok { s with batch, batchSize := s.batchSize + 1 }

/-- `data` is the feature matrix; what else the file gives is not used. -/
def loadLibsvm (bucket : Bucket) (data : List (PyRow V)) : Except Fault Bucket := do
  let s ← data.foldlM (addRow c) { bucket }
  if 0 < s.batchSize then putBatch c s.bucket s.batchNum (s.batch.take s.batchSize) else .ok s.bucket

end Loop

section Chunks

def chunkCount (n : Nat) : Nat := (n + rowsPerChunk - 1) / rowsPerChunk

def chunk {A : Type} (rows : List A) (k : Nat) : List A := (rows.drop (k * rowsPerChunk)).take rowsPerChunk

theorem rowsPerChunk_pos : 0 < rowsPerChunk := by
  unfold rowsPerChunk
  decide

theorem next_full {n : Nat} (full : n % rowsPerChunk + 1 = rowsPerChunk) :
    (n + 1) / rowsPerChunk = n / rowsPerChunk + 1 ∧ (n + 1) % rowsPerChunk = 0 := by
  unfold rowsPerChunk at *
  omega

theorem next_part {n : Nat} (part : n % rowsPerChunk + 1 ≠ rowsPerChunk) :
    (n + 1) / rowsPerChunk = n / rowsPerChunk ∧ (n + 1) % rowsPerChunk = n % rowsPerChunk + 1 ∧
      n % rowsPerChunk + 1 < rowsPerChunk := by
  unfold rowsPerChunk at *
  omega

theorem chunkCount_eq (n : Nat) :
    chunkCount n = if 0 < n % rowsPerChunk then n / rowsPerChunk + 1 else n / rowsPerChunk := by
  unfold chunkCount rowsPerChunk
  split <;> omega

theorem chunk_append {A : Type} {rows : List A} {k : Nat} (full : (k + 1) * rowsPerChunk ≤ rows.length) (more : List A) :
    chunk (rows ++ more) k = chunk rows k := by
  rw [Nat.succ_mul] at full
  unfold chunk
  rw [List.drop_append_of_le_length (by omega), List.take_append_of_le_length (by rw [List.length_drop]; omega)]

theorem chunks_flatten {A : Type} (rows : List A) (n : Nat) (enough : rows.length ≤ n * rowsPerChunk) :
    (List.range n).flatMap (chunk rows) = rows := by
  induction n generalizing rows with
  | zero =>
    obtain rfl := List.length_eq_zero_iff.mp (show rows.length = 0 by omega)
    rfl
  | succ n ih =>
    rw [Nat.succ_mul] at enough
    have rest := ih (rows.drop rowsPerChunk) (by rw [List.length_drop]; omega)
    have shifted : (List.range n).flatMap (fun k => chunk rows (k + 1)) = rows.drop rowsPerChunk := by
      rw [← rest]
      congr 1
      funext k
      rw [chunk, chunk, List.drop_drop, Nat.succ_mul, Nat.add_comm]
    rw [List.range_succ_eq_map, List.flatMap_cons, List.flatMap_map]
    show chunk rows 0 ++ (List.range n).flatMap (fun k => chunk rows (k + 1)) = rows
    rw [shifted, chunk, Nat.zero_mul, List.drop_zero, List.take_append_drop]

end Chunks

section Run
variable {c : Narrowing V}

/-- What the loop has done after these rows: the full chunks are stored, and the rows after them are in the buffer. -/
structure Loaded (c : Narrowing V) (done : List (PyRow V)) (s : Loader V) : Prop where
  number : s.batchNum = done.length / rowsPerChunk + 1
  size : s.batchSize = done.length % rowsPerChunk
  filled : s.batch = (done.drop (done.length / rowsPerChunk * rowsPerChunk)).map some ++
    List.replicate (rowsPerChunk - done.length % rowsPerChunk) none
  stored : ∀ k < done.length / rowsPerChunk,
    ∃ object, serializeData c (chunk done k) none = .ok object ∧ s.bucket (str (k + 1 : Nat)) = some object

theorem rowsOf_some (rows : List (PyRow V)) : rowsOf (rows.map some) = .ok rows := by
  induction rows with
  | nil => rfl
  | cons row rest ih =>
    rw [List.map_cons, rowsOf, ih]
    rfl

theorem putBatch_some (bucket : Bucket) (number : Nat) (rows : List (PyRow V)) :
    putBatch c bucket number (rows.map some) =
      serializeData c rows none >>= fun serialized => .ok (Function.update bucket (str number) (some serialized)) := by
  unfold putBatch
  rw [Loops.bind_of_ok (rowsOf_some rows)]

theorem partial_length (rows : List (PyRow V)) :
    (rows.drop (rows.length / rowsPerChunk * rowsPerChunk)).length = rows.length % rowsPerChunk := by
  have whole := Nat.div_add_mod' rows.length rowsPerChunk
  rw [List.length_drop]
  omega

theorem set_partial (rows : List (PyRow V)) (row : PyRow V) {free : Nat} (some_free : 0 < free) :
    (rows.map some ++ List.replicate free none).set rows.length (some row) =
      (rows ++ [row]).map some ++ List.replicate (free - 1) none := by
  obtain ⟨free, rfl⟩ := Nat.exists_eq_add_one_of_ne_zero (Nat.pos_iff_ne_zero.mp some_free)
  have place : rows.length = (rows.map some).length := by rw [List.length_map]
  rw [place, List.set_append_right _ _ (Nat.le_refl _), Nat.sub_self, List.replicate_succ, List.set_cons_zero,
    List.map_append, List.append_assoc]
  rfl

theorem loaded_start (bucket : Bucket) : Loaded c [] ({ bucket } : Loader V) where
  number := by rw [List.length_nil, Nat.zero_div]
  size := by rw [List.length_nil, Nat.zero_mod]
  filled := by rw [List.drop_nil, List.map_nil, List.length_nil, Nat.zero_mod, Nat.sub_zero, List.nil_append]
  stored k below := by
    rw [List.length_nil, Nat.zero_div] at below
    omega

theorem loaded_step {done : List (PyRow V)} {s : Loader V} (loaded : Loaded c done s) (row : PyRow V) :
    (∀ t, addRow c s row = .ok t → Loaded c (done ++ [row]) t) ∧
    ((∀ k < (done ++ [row]).length / rowsPerChunk, ∃ object, serializeData c (chunk (done ++ [row]) k) none = .ok object) →
      ∃ t, addRow c s row = .ok t) := by
  obtain ⟨number, size, filled, stored⟩ := loaded
  have length : (done ++ [row]).length = done.length + 1 := by simp
  have below := Nat.mod_lt done.length rowsPerChunk_pos
  have whole := Nat.div_add_mod' done.length rowsPerChunk
  have part := partial_length done
  have tail : (done ++ [row]).drop (done.length / rowsPerChunk * rowsPerChunk) =
      done.drop (done.length / rowsPerChunk * rowsPerChunk) ++ [row] := List.drop_append_of_le_length (by omega)
  have batch : s.batch.set s.batchSize (some row) =
      (done.drop (done.length / rowsPerChunk * rowsPerChunk) ++ [row]).map some ++
        List.replicate (rowsPerChunk - done.length % rowsPerChunk - 1) none := by
    rw [filled, size, ← part]
    exact set_partial _ row (by omega)
  have kept (k : Nat) (early : k < done.length / rowsPerChunk) : chunk (done ++ [row]) k = chunk done k := by
    have : (k + 1) * rowsPerChunk ≤ done.length / rowsPerChunk * rowsPerChunk := Nat.mul_le_mul_right _ early
    exact chunk_append (by omega) [row]
  unfold addRow
  rw [batch, size]
  by_cases full : done.length % rowsPerChunk + 1 = rowsPerChunk
  · obtain ⟨quotient, remainder⟩ := next_full full
    have last : chunk (done ++ [row]) (done.length / rowsPerChunk) =
        done.drop (done.length / rowsPerChunk * rowsPerChunk) ++ [row] := by
      unfold chunk
      rw [tail, List.take_of_length_le]
      rw [List.length_append, part, List.length_singleton, full]
    have none_free : rowsPerChunk - done.length % rowsPerChunk - 1 = 0 := by omega
    simp only [if_pos full, none_free, List.replicate_zero, List.append_nil, putBatch_some]
    rw [← last]
    constructor
    · intro t added
      obtain ⟨bucket, put, added⟩ := Loops.ok_of_bind added
      obtain ⟨object, serialized, put⟩ := Loops.ok_of_bind put
      obtain rfl := Except.ok.inj put
      obtain rfl := Except.ok.inj added
      refine ⟨by rw [number, length, quotient], by rw [length, remainder], ?_, ?_⟩
      · have all : (done ++ [row]).drop ((done ++ [row]).length / rowsPerChunk * rowsPerChunk) = [] := by
          apply List.drop_eq_nil_of_le
          have := Nat.div_add_mod' (done.length + 1) rowsPerChunk
          rw [length]
          omega
        rw [all, length, remainder]
        rfl
      · intro k early
        rw [length, quotient] at early
        rcases Nat.lt_or_ge k (done.length / rowsPerChunk) with before | now
        · have other : str (k + 1 : Nat) ≠ str s.batchNum := by
            intro same
            have := str_injective same
            omega
          obtain ⟨object, serialized, there⟩ := stored k before
          exact ⟨object, by rw [kept k before]; exact serialized, by simp only [Function.update_of_ne other]; exact there⟩
        · obtain rfl : k = done.length / rowsPerChunk := by omega
          exact ⟨object, serialized, by rw [number]; exact Function.update_self ..⟩
    · intro each
      obtain ⟨object, serialized⟩ := each (done.length / rowsPerChunk) (by rw [length, quotient]; omega)
      exact ⟨_, by rw [serialized]; rfl⟩
  · obtain ⟨quotient, remainder, _⟩ := next_part full
    simp only [if_neg full]
    constructor
    · intro t added
      obtain rfl := Except.ok.inj added
      refine ⟨by rw [length, quotient]; exact number, by rw [length, remainder], ?_, ?_⟩
      · rw [length, quotient, remainder, tail]
        rfl
      · intro k early
        rw [length, quotient] at early
        rw [kept k early]
        exact stored k early
    · intro _
      exact ⟨_, rfl⟩

theorem loaded_run (c : Narrowing V) (bucket : Bucket) (rows : List (PyRow V)) :
    (∀ s, rows.foldlM (addRow c) { bucket } = .ok s → Loaded c rows s) ∧
    ((∀ k < rows.length / rowsPerChunk, ∃ object, serializeData c (chunk rows k) none = .ok object) →
      ∃ s, rows.foldlM (addRow c) { bucket } = .ok s) := by
  induction rows using List.reverseRecOn with
  | nil =>
    constructor
    · intro s same
      obtain rfl := Except.ok.inj same
      exact loaded_start bucket
    · intro _
      exact ⟨_, rfl⟩
  | append_singleton rows row ih =>
    rw [List.foldlM_append]
    constructor
    · intro t run
      obtain ⟨s, before, run⟩ := Loops.ok_of_bind run
      obtain ⟨u, added, last⟩ := Loops.ok_of_bind run
      obtain rfl := Except.ok.inj last
      exact (loaded_step (ih.1 s before) row).1 u added
    · intro each
      have fewer : rows.length / rowsPerChunk ≤ (rows ++ [row]).length / rowsPerChunk :=
        Nat.div_le_div_right (by simp)
      obtain ⟨s, before⟩ := ih.2 fun k early => by
        have whole := Nat.div_add_mod' rows.length rowsPerChunk
        have : (k + 1) * rowsPerChunk ≤ rows.length / rowsPerChunk * rowsPerChunk := Nat.mul_le_mul_right _ early
        obtain ⟨object, serialized⟩ := each k (by omega)
        rw [chunk_append (by omega)] at serialized
        exact ⟨object, serialized⟩
      obtain ⟨t, added⟩ := (loaded_step (ih.1 s before) row).2 each
      rw [Loops.bind_of_ok before, List.foldlM_cons, added]
      exact ⟨t, rfl⟩

theorem loadLibsvm_stores (c : Narrowing V) (bucket : Bucket) (rows : List (PyRow V)) :
    (∀ after, loadLibsvm c bucket rows = .ok after → ∀ k < chunkCount rows.length,
      ∃ object, serializeData c (chunk rows k) none = .ok object ∧ after (str (k + 1 : Nat)) = some object) ∧
    ((∀ k < chunkCount rows.length, ∃ object, serializeData c (chunk rows k) none = .ok object) →
      ∃ after, loadLibsvm c bucket rows = .ok after) := by
  obtain ⟨ran, runs⟩ := loaded_run c bucket rows
  rw [chunkCount_eq]
  have part := partial_length rows
  have last : chunk rows (rows.length / rowsPerChunk) = rows.drop (rows.length / rowsPerChunk * rowsPerChunk) := by
    have below := Nat.mod_lt rows.length rowsPerChunk_pos
    unfold chunk
    rw [List.take_of_length_le]
    omega
  have buffer {s : Loader V} (loaded : Loaded c rows s) :
      s.batch.take s.batchSize = (chunk rows (rows.length / rowsPerChunk)).map some := by
    rw [loaded.filled, loaded.size, last]
    apply List.take_left'
    rw [List.length_map, part]
  by_cases more : 0 < rows.length % rowsPerChunk
  · rw [if_pos more]
    constructor
    · intro after done k below
      obtain ⟨s, run, done⟩ := Loops.ok_of_bind done
      have loaded := ran s run
      rw [if_pos (by rw [loaded.size]; exact more), buffer loaded, putBatch_some] at done
      obtain ⟨object, serialized, done⟩ := Loops.ok_of_bind done
      obtain rfl := Except.ok.inj done
      rcases Nat.lt_or_ge k (rows.length / rowsPerChunk) with before | now
      · have other : str (k + 1 : Nat) ≠ str s.batchNum := by
          intro same
          have := str_injective same
          have := loaded.number
          omega
        rw [Function.update_of_ne other]
        exact loaded.stored k before
      · obtain rfl : k = rows.length / rowsPerChunk := by omega
        exact ⟨object, serialized, by rw [loaded.number]; exact Function.update_self ..⟩
    · intro each
      obtain ⟨s, run⟩ := runs fun k below => each k (by omega)
      obtain ⟨object, serialized⟩ := each (rows.length / rowsPerChunk) (by omega)
      have loaded := ran s run
      unfold loadLibsvm
      rw [Loops.bind_of_ok run, if_pos (by rw [loaded.size]; exact more), buffer loaded, putBatch_some, serialized]
      exact ⟨_, rfl⟩
  · rw [if_neg more]
    constructor
    · intro after done k below
      obtain ⟨s, run, done⟩ := Loops.ok_of_bind done
      have loaded := ran s run
      rw [if_neg (by rw [loaded.size]; exact more)] at done
      obtain rfl := Except.ok.inj done
      exact loaded.stored k below
    · intro each
      obtain ⟨s, run⟩ := runs each
      have loaded := ran s run
      unfold loadLibsvm
      rw [Loops.bind_of_ok run, if_neg (by rw [loaded.size]; exact more)]
      exact ⟨_, rfl⟩

end Run

section Uploaded
variable (c : Narrowing V)

def samplesOf (ds : SparseDataset UInt32) : List (Sample V) :=
  (ds.data.zip ds.labels).map fun e => ⟨e.1.map fun e => (e.1.toInt, c.widen e.2), c.widen e.2⟩

/-- The datasets of the objects under keys 1, 2, ... are the samples, all but the last full. -/
def Uploaded (bucket : Bucket) (samples : List (Sample V)) : Prop :=
  ∃ (after : Bucket) (datasets : List (SparseDataset UInt32)), loadLibsvm c bucket (samples.map (·.features)) = .ok after ∧
    datasets.length = chunkCount samples.length ∧
    (∀ k ds, datasets[k]? = some ds →
      (∃ object rest, after (str (k + 1 : Nat)) = some object ∧ fromS3 wire true object = .ok (ds, rest)) ∧
      (k + 1 < datasets.length → ds.data.length = rowsPerChunk)) ∧
    datasets.flatMap (samplesOf c) = samples

variable {c}

theorem rounds_short {stored : List (Option UInt32 × Row UInt32)}
    (each : ∀ s ∈ stored, s.1.isSome = true ∧ (∀ l ∈ s.1, FeatureTests.isLabel l) ∧ s.2.length < 2 ^ 31) {i : Nat}
    {memory rest : List UInt8} {loaded : List (Option UInt32 × Row UInt32)}
    (ok : rounds (fun _ => loadSampleS3 wire true) i stored.length (stored.flatMap (putSample wire) ++ memory) = .ok (loaded, rest)) :
    ∀ s ∈ stored, s.2.length ≤ 1000000 := by
  induction stored generalizing i loaded rest with
  | nil => exact nofun
  | cons s others ih =>
    rw [List.forall_mem_cons] at each ⊢
    obtain ⟨⟨labels, label, small⟩, each⟩ := each
    rw [List.length_cons, rounds, List.flatMap_cons, List.append_assoc] at ok
    obtain ⟨first, mid, read, ok⟩ := ok_of_bind ok
    have short : s.2.length ≤ 1000000 := by
      by_contra long
      rw [loadSampleS3_refuses labels label (by omega) small] at read
      cases read
    obtain ⟨later, last, tail, _⟩ := ok_of_bind ok
    rw [loadSampleS3_decodes labels label short] at read
    obtain ⟨rfl, rfl⟩ := Prod.mk.inj (Except.ok.inj read)
    exact ⟨short, ih each tail⟩

theorem given_zero (n i : Nat) (l : UInt32) (there : (List.replicate n (0 : UInt32))[i]? = some l) :
    labelOf none i = .ok (wire.feature.put l) := by
  rw [List.eq_of_mem_replicate (List.mem_of_getElem? there)]
  rfl

theorem serializeData_none {rows : List (PyRow V)} {object : List UInt8} :
    serializeData c rows none = .ok object ↔ ∃ narrowed, Narrowed c rows narrowed ∧ packedSize rows < 2 ^ 31 ∧
      rows.length < 2 ^ 31 ∧ object = wire.int.put (toInt (packedSize rows)) ++ (wire.int.put (toInt rows.length) ++
        (sampled (List.replicate rows.length 0) narrowed).flatMap (putSample wire)) := by
  have size : (List.replicate rows.length (0 : UInt32)).length = rows.length := List.length_replicate
  rw [serializeData_iff c none rows _ size (given_zero rows.length)]
  constructor
  · intro ⟨narrowed, each, fits⟩
    rw [sampled_size each size] at fits
    exact ⟨narrowed, each, fits⟩
  · intro ⟨narrowed, each, fits⟩
    refine ⟨narrowed, each, ?_⟩
    rw [sampled_size each size]
    exact fits

theorem object_read {rows : List (PyRow V)} {object : List UInt8} (serialized : serializeData c rows none = .ok object)
    (some_row : 0 < rows.length) (few : rows.length < 1000000) {ds : SparseDataset UInt32} {rest : List UInt8}
    (read : fromS3 wire true object = .ok (ds, rest)) : (∀ row ∈ rows, row.length ≤ 1000000) ∧
      ∃ narrowed, Narrowed c rows narrowed ∧ ds = ⟨narrowed, List.replicate rows.length 0⟩ := by
  obtain ⟨narrowed, each, _, _, rfl⟩ := serializeData_none.mp serialized
  have size : (List.replicate rows.length (0 : UInt32)).length = rows.length := List.length_replicate
  have count : (sampled (List.replicate rows.length 0) narrowed).length = rows.length := by
    simp [sampled, each.length_eq]
  have source : ∀ s ∈ sampled (List.replicate rows.length 0) narrowed,
      s.1.isSome = true ∧ (∀ l ∈ s.1, FeatureTests.isLabel l) ∧ s.2.length < 2 ^ 31 := by
    intro s member
    obtain ⟨⟨l, row'⟩, both, rfl⟩ := List.mem_map.mp member
    obtain ⟨zero, inside⟩ := List.of_mem_zip both
    obtain ⟨row, there, same⟩ := narrowed_source each inside
    refine ⟨rfl, ?_, ?_⟩
    · intro l' same
      obtain rfl := Option.some.inj same
      exact isLabel_bits (.inl (List.eq_of_mem_replicate zero))
    · rw [narrowRow_length same]
      exact narrowed_small each row there
  have short : ∀ row ∈ rows, row.length ≤ 1000000 := by
    have inner := read
    unfold fromS3 at inner
    rw [bind_ok (Codec.load_put wire.int _ _), bind_ok (Codec.load_put wire.int _ _),
      (count_small (show rows.length < 2 ^ 31 by omega)).1, Int.toNat_natCast, check_pos (by omega),
      bind_ok (pure_apply () _)] at inner
    obtain ⟨loaded, mid, all, _⟩ := ok_of_bind inner
    rw [← List.append_nil (List.flatMap _ _)] at all
    have lengths := rounds_short source (by rw [count]; exact all)
    intro row member
    obtain ⟨row', inside, same⟩ := narrowed_target each member
    obtain ⟨i, there⟩ := List.getElem?_of_mem inside
    have bound : i < rows.length := by
      rw [each.length_eq]
      exact (List.getElem?_eq_some_iff.mp there).1
    have placed : (some (0 : UInt32), row') ∈ sampled (List.replicate rows.length 0) narrowed := by
      apply List.mem_of_getElem? (i := i)
      simp [sampled, List.getElem?_zip_eq_some, there, bound]
    rw [← narrowRow_length same]
    exact lengths _ placed
  refine ⟨short, narrowed, each, ?_⟩
  have decoded := fromS3_sampled each size some_row few short
    (fun l member => .inl (List.eq_of_mem_replicate member)) (toInt (packedSize rows)) []
  rw [List.append_nil, read] at decoded
  exact (Prod.mk.inj (Except.ok.inj decoded)).1

theorem samplesOf_zero (narrowed : List (Row UInt32)) (n : Nat) (size : narrowed.length = n) :
    samplesOf c ⟨narrowed, List.replicate n 0⟩ =
      narrowed.map fun row => ⟨row.map fun e => (e.1.toInt, c.widen e.2), c.widen 0⟩ := by
  subst size
  unfold samplesOf
  induction narrowed with
  | nil => rfl
  | cons row rest ih =>
    rw [List.length_cons, List.replicate_succ, List.zip_cons_cons, List.map_cons, ih, List.map_cons]

/-- The samples that the loader keeps: without a label, and with values that are floats. -/
structure Kept (c : Narrowing V) (s : Sample V) : Prop where
  label : s.label = c.widen 0
  exact : Exact c s.features
  short : s.features.length ≤ 1000000

theorem kept_of_read {rows : List (PyRow V)} (short : ∀ row ∈ rows, row.length ≤ 1000000) {narrowed : List (Row UInt32)}
    (each : Narrowed c rows narrowed) {s : Sample V}
    (member : s ∈ samplesOf c ⟨narrowed, List.replicate rows.length 0⟩) : Kept c s := by
  rw [samplesOf_zero narrowed rows.length each.length_eq.symm] at member
  obtain ⟨row', inside, rfl⟩ := List.mem_map.mp member
  obtain ⟨row, there, same⟩ := narrowed_source each inside
  refine ⟨rfl, ?_, ?_⟩
  · intro e listed
    obtain ⟨x, _, rfl⟩ := List.mem_map.mp listed
    exact ⟨⟨x.1.le_toInt, x.1.toInt_lt⟩, x.2, rfl⟩
  · rw [List.length_map, narrowRow_length same]
    exact short row there

theorem samplesOf_kept {samples : List (Sample V)} (kept : ∀ s ∈ samples, Kept c s) {narrowed : List (Row UInt32)}
    (back : narrowed.map (·.map fun e => (e.1.toInt, c.widen e.2)) = samples.map (·.features)) :
    samplesOf c ⟨narrowed, List.replicate samples.length 0⟩ = samples := by
  have size : narrowed.length = samples.length := by simpa using congrArg List.length back
  rw [samplesOf_zero narrowed samples.length size]
  calc narrowed.map (fun row => (⟨row.map fun e => (e.1.toInt, c.widen e.2), c.widen 0⟩ : Sample V))
      = (narrowed.map (·.map fun e => (e.1.toInt, c.widen e.2))).map (fun row => ⟨row, c.widen 0⟩) := by
        rw [List.map_map]
        rfl
    _ = samples.map (fun s => ⟨s.features, c.widen 0⟩) := by
        rw [back, List.map_map]
        rfl
    _ = samples.map id := List.map_congr_left fun s member => by rw [← (kept s member).label]; rfl
    _ = samples := List.map_id samples

theorem chunk_map {A C : Type} (f : A → C) (rows : List A) (k : Nat) : chunk (rows.map f) k = (chunk rows k).map f := by
  unfold chunk
  rw [← List.map_drop, ← List.map_take]

theorem chunk_size {A : Type} {rows : List A} {k : Nat} (below : k < chunkCount rows.length) :
    0 < (chunk rows k).length ∧ (chunk rows k).length < 1000000 ∧
      (k + 1 < chunkCount rows.length → (chunk rows k).length = rowsPerChunk) := by
  unfold chunk
  rw [List.length_take, List.length_drop]
  unfold chunkCount rowsPerChunk at *
  omega

theorem exists_list {A : Type} {P : Nat → A → Prop} (n : Nat) (each : ∀ k < n, ∃ a, P k a) :
    ∃ values : List A, values.length = n ∧ ∀ k a, values[k]? = some a → P k a := by
  induction n with
  | zero => exact ⟨[], rfl, nofun⟩
  | succ n ih =>
    obtain ⟨values, size, holds⟩ := ih fun k below => each k (by omega)
    obtain ⟨a, last⟩ := each n (by omega)
    refine ⟨values ++ [a], by simp [size], ?_⟩
    intro k b there
    rcases Nat.lt_or_ge k values.length with early | late
    · rw [List.getElem?_append_left early] at there
      exact holds k b there
    · rw [List.getElem?_append_right late] at there
      obtain ⟨inside, same⟩ := List.getElem?_eq_some_iff.mp there
      rw [List.length_singleton] at inside
      obtain rfl : k = n := by omega
      simp only [List.getElem_singleton] at same
      exact same ▸ last

theorem Uploaded.kept {bucket : Bucket} {samples : List (Sample V)} (uploaded : Uploaded c bucket samples) :
    (∀ s ∈ samples, Kept c s) ∧
      ∀ k < chunkCount samples.length, packedSize (chunk (samples.map (·.features)) k) < 2 ^ 31 := by
  obtain ⟨after, datasets, done, count, each, same⟩ := uploaded
  have stored := (loadLibsvm_stores c bucket _).1 after done
  rw [List.length_map] at stored
  constructor
  · intro s member
    rw [← same] at member
    obtain ⟨ds, listed, inside⟩ := List.mem_flatMap.mp member
    obtain ⟨k, there⟩ := List.getElem?_of_mem listed
    have below : k < chunkCount samples.length := count ▸ (List.getElem?_eq_some_iff.mp there).1
    obtain ⟨⟨object, rest, placed, read⟩, _⟩ := each k ds there
    obtain ⟨object', serialized, placed'⟩ := stored k below
    obtain rfl : object' = object := Option.some.inj (placed'.symm.trans placed)
    have size := chunk_size (by rw [List.length_map]; exact below : k < chunkCount (samples.map (·.features)).length)
    obtain ⟨short, narrowed, narrow, rfl⟩ := object_read serialized size.1 size.2.1 read
    exact kept_of_read short narrow inside
  · intro k below
    obtain ⟨object, serialized, _⟩ := stored k below
    obtain ⟨_, _, small, _⟩ := serializeData_none.mp serialized
    exact small

theorem chunk_stored {rows : List (Sample V)} (kept : ∀ s ∈ rows, Kept c s) (some_row : 0 < rows.length)
    (few : rows.length < 1000000) (small : packedSize (rows.map (·.features)) < 2 ^ 31) :
    ∃ object ds, serializeData c (rows.map (·.features)) none = .ok object ∧ fromS3 wire true object = .ok (ds, []) ∧
      samplesOf c ds = rows ∧ ds.data.length = rows.length := by
  have count : (rows.map (·.features)).length = rows.length := List.length_map _
  have exact : ∀ row ∈ rows.map (·.features), Exact c row := by
    intro row member
    obtain ⟨s, there, rfl⟩ := List.mem_map.mp member
    exact (kept s there).exact
  have short : ∀ row ∈ rows.map (·.features), row.length ≤ 1000000 := by
    intro row member
    obtain ⟨s, there, rfl⟩ := List.mem_map.mp member
    exact (kept s there).short
  obtain ⟨narrowed, each, back⟩ := narrowed_exact exact fun row member => Nat.lt_of_le_of_lt (short row member) (by decide)
  have zeros : (List.replicate (rows.map (·.features)).length (0 : UInt32)).length = (rows.map (·.features)).length :=
    List.length_replicate
  have read := fromS3_sampled each zeros (by omega) (by omega) short (fun l member => .inl (List.eq_of_mem_replicate member))
    (toInt (packedSize (rows.map (·.features)))) []
  rw [List.append_nil, count] at read
  refine ⟨_, ⟨narrowed, List.replicate rows.length 0⟩, serializeData_none.mpr ⟨narrowed, each, small, by omega, rfl⟩, ?_,
    samplesOf_kept kept back, ?_⟩
  · rw [count]
    exact read
  · rw [← count]
    exact each.length_eq.symm

/-- No label is ever stored, so the objects are the samples only where every label is 0; and where the
values, the rows and the objects are within what their formats hold. -/
theorem uploaded_iff (c : Narrowing V) (bucket : Bucket) (samples : List (Sample V)) :
    Uploaded c bucket samples ↔ (∀ s ∈ samples, Kept c s) ∧
      ∀ k < chunkCount samples.length, packedSize (chunk (samples.map (·.features)) k) < 2 ^ 31 := by
  constructor
  · exact Uploaded.kept
  · intro ⟨kept, small⟩
    have objects : ∀ k < chunkCount samples.length, ∃ object ds,
        serializeData c (chunk (samples.map (·.features)) k) none = .ok object ∧ fromS3 wire true object = .ok (ds, []) ∧
        samplesOf c ds = chunk samples k ∧ ds.data.length = (chunk samples k).length := by
      intro k below
      obtain ⟨some_row, few, _⟩ := chunk_size below
      have size := small k below
      rw [chunk_map] at size ⊢
      exact chunk_stored (fun s member => kept s (List.mem_of_mem_drop (List.mem_of_mem_take member))) some_row few size
    have stored := loadLibsvm_stores c bucket (samples.map (·.features))
    rw [List.length_map] at stored
    obtain ⟨after, done⟩ := stored.2 fun k below => by
      obtain ⟨object, _, serialized, _⟩ := objects k below
      exact ⟨object, serialized⟩
    obtain ⟨datasets, count, holds⟩ := exists_list (chunkCount samples.length)
      (P := fun k ds => ∃ object, after (str (k + 1 : Nat)) = some object ∧ fromS3 wire true object = .ok (ds, []) ∧
        samplesOf c ds = chunk samples k ∧ ds.data.length = (chunk samples k).length) fun k below => by
      obtain ⟨object, ds, serialized, read⟩ := objects k below
      obtain ⟨object', serialized', placed⟩ := stored.1 after done k below
      obtain rfl : object' = object := Except.ok.inj (serialized'.symm.trans serialized)
      exact ⟨ds, object', placed, read⟩
    refine ⟨after, datasets, done, count, ?_, ?_⟩
    · intro k ds there
      obtain ⟨object, placed, read, _, size⟩ := holds k ds there
      refine ⟨⟨object, [], placed, read⟩, ?_⟩
      intro more
      rw [count] at more
      rw [size]
      exact (chunk_size (by omega)).2.2 more
    · have each : datasets.map (samplesOf c) = (List.range (chunkCount samples.length)).map (chunk samples) := by
        apply List.ext_getElem?
        intro k
        rw [List.getElem?_map, List.getElem?_map]
        cases there : datasets[k]? with
        | none =>
          have beyond := List.getElem?_eq_none_iff.mp there
          rw [List.getElem?_eq_none (by rw [List.length_range, ← count]; exact beyond)]
          rfl
        | some ds =>
          have below := (List.getElem?_eq_some_iff.mp there).1
          obtain ⟨_, _, _, same, _⟩ := holds k ds there
          rw [List.getElem?_range (by rw [← count]; exact below), Option.map_some, Option.map_some, same]
      rw [List.flatMap, each]
      exact chunks_flatten samples _ (by unfold chunkCount rowsPerChunk; omega)

theorem label_lost : ¬ Uploaded sameFloats (fun _ => none) [⟨[], 0x3f800000⟩] := by
  intro uploaded
  have kept := uploaded.kept.1 _ List.mem_cons_self
  exact absurd kept.label (by decide)

end Uploaded

end LoadLibsvm

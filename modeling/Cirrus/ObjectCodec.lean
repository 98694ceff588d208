import Cirrus.SparseObject

/-!
An object of S3 is read back as the rows it was built from. The size in front
is counted over the entries of the rows; what is stored is as long.
-/
namespace SparseObject
open Gradients SparseLR Decoder
variable {B F : Type}

def objectBytes (storeLabels : Bool) (rows : List (Row F)) : Nat :=
  rows.flatten.length * 8 + rows.length * ((if storeLabels then 4 else 0) + 4) + 8

/-- The rows from `l` to `r`, and their labels where these are stored. -/
def slice (storeLabels : Bool) (ds : SparseDataset F) (l r : Nat) : SparseDataset F where
  data := (ds.data.drop l).take (r - l)
  labels := if storeLabels then (ds.labels.drop l).take (r - l) else []

section Samples
variable {w : Wire B F} {labelled : Bool} {ds : SparseDataset F}

theorem samples_isSome : ∀ s ∈ samples labelled ds, s.1.isSome = labelled := by
  intro s member
  unfold samples at member
  split at member
  next stored =>
    obtain ⟨x, _, same⟩ := List.mem_map.mp (List.of_mem_zip member).1
    rw [← same, stored]
    rfl
  next without =>
    obtain ⟨row, _, rfl⟩ := List.mem_map.mp member
    rw [Bool.not_eq_true] at without
    exact without.symm

theorem samples_slice (l r : Nat) :
    ((samples labelled ds).drop l).take (r - l) = samples labelled (slice labelled ds l r) := by
  unfold samples slice
  cases labelled with
  | false => simp only [Bool.false_eq_true, if_false, List.map_take, List.map_drop]
  | true => simp only [if_true, List.map_take, List.map_drop, List.zip, List.take_zipWith, List.drop_zipWith]

theorem dataset_samples (matched : labelled → ds.labels.length = ds.data.length) (none : ¬ labelled → ds.labels = []) :
    dataset (samples labelled ds) = ds := by
  obtain ⟨data, labels⟩ := ds
  unfold samples dataset
  cases labelled with
  | false =>
    obtain rfl : labels = [] := none Bool.false_ne_true
    simp only [Bool.false_eq_true, if_false, List.map_map, List.filterMap_map, SparseDataset.mk.injEq]
    exact ⟨List.map_id data, by simp⟩
  | true =>
    have same : labels.length = data.length := matched rfl
    have rows : ((labels.map some).zip data).map Prod.snd = data := List.map_snd_zip (by rw [List.length_map, same])
    have firsts : ((labels.map some).zip data).map Prod.fst = labels.map some :=
      List.map_fst_zip (by rw [List.length_map, same])
    have all : ((labels.map some).zip data).filterMap Prod.fst = labels := by
      have composed := List.filterMap_map (f := Prod.fst) (g := id) (l := (labels.map some).zip data)
      rw [firsts, List.filterMap_map, Function.id_comp, Function.id_comp, List.filterMap_some] at composed
      exact composed.symm
    simp only [if_true, rows, all]

theorem storeSample_gives {i : Nat} {s : Option F × Row F} (there : (samples labelled ds)[i]? = some s)
    (matched : labelled → ds.labels.length = ds.data.length) : storeSample w labelled ds i = .ok (putSample w s) := by
  unfold samples at there
  unfold storeSample storeLabel
  cases labelled with
  | false =>
    rw [if_neg Bool.false_ne_true, List.getElem?_map, Option.map_eq_some_iff] at there
    obtain ⟨row, found, rfl⟩ := there
    rw [found]
    rfl
  | true =>
    rw [if_pos rfl, List.getElem?_zip_eq_some, List.getElem?_map, Option.map_eq_some_iff] at there
    obtain ⟨⟨x, label, first⟩, found⟩ := there
    obtain ⟨l, row⟩ := s
    dsimp only at first found
    subst first
    rw [if_pos rfl, at'_ok.mpr label, found]
    rfl

theorem storeSamples_gives (matched : labelled → ds.labels.length = ds.data.length) (n : Nat) {i : Nat}
    (within : i + n ≤ (samples labelled ds).length) :
    storeSamples w labelled ds i n = .ok ((((samples labelled ds).drop i).take n).flatMap (putSample w)) := by
  induction n generalizing i with
  | zero => rfl
  | succ n ih =>
    have inside : i < (samples labelled ds).length := by omega
    have first := storeSample_gives (w := w) (List.getElem?_eq_getElem inside) matched
    have rest := ih (i := i + 1) (by omega)
    unfold storeSamples
    rw [List.drop_eq_getElem_cons inside, List.take_succ_cons, List.flatMap_cons]
    exact (Loops.bind_of_ok first _).trans (Loops.bind_of_ok rest _)

theorem putSamples_length {stored : List (Option F × Row F)} (labels : ∀ s ∈ stored, s.1.isSome = labelled) :
    (stored.flatMap (putSample w)).length + 8 = objectBytes labelled (stored.map Prod.snd) := by
  induction stored with
  | nil => simp [objectBytes]
  | cons s rest ih =>
    rw [List.forall_mem_cons] at labels
    have others := ih labels.2
    have label : (s.1.elim [] w.feature.put).length = if labelled then 4 else 0 := by
      rw [← labels.1]
      cases s.1 with
      | none => rfl
      | some l => exact w.feature.put_length l
    unfold objectBytes at others ⊢
    rw [List.flatMap_cons, List.length_append, putSample, List.length_append, List.length_append, label, w.int.put_length,
      putEntries_length, List.map_cons, List.flatten_cons, List.length_append, List.length_cons, Nat.succ_mul]
    omega

theorem slice_length (labelled : Bool) {l r : Nat} (within : r ≤ ds.data.length) : (slice labelled ds l r).data.length = r - l := by
  rw [slice, List.length_take, List.length_drop]
  omega

theorem narrow_toInt (n : UInt64) : n.toUInt32.toInt32 = toInt n.toNat := rfl

/-- The counting pass finds what the writing pass stores. -/
theorem objSize_toNat {l r : UInt64} (ordered : l < r) (within : r.toNat ≤ ds.data.length)
    (small : objectBytes labelled (slice labelled ds l.toNat r.toNat).data < 2 ^ 31) :
    (objSize labelled ds l r).toNat = objectBytes labelled (slice labelled ds l.toNat r.toNat).data := by
  have rows := slice_length labelled (l := l.toNat) within
  have number : (r - l).toNat = r.toNat - l.toNat := UInt64.toNat_sub_of_le r l (UInt64.le_of_lt ordered)
  unfold objectBytes at small ⊢
  rw [rows] at small ⊢
  have entries : (UInt64.ofNat (slice labelled ds l.toNat r.toNat).data.flatten.length).toNat =
      (slice labelled ds l.toNat r.toNat).data.flatten.length := UInt64.toNat_ofNat_of_lt' (by rw [UInt64.size]; omega)
  unfold slice at entries small ⊢
  unfold objSize
  cases labelled with
  | false =>
    simp only [Bool.false_eq_true, if_false, UInt64.toNat_add, UInt64.toNat_mul, number, entries, UInt64.reduceToNat]
      at small ⊢
    omega
  | true =>
    simp only [if_true, UInt64.toNat_add, UInt64.toNat_mul, number, entries, UInt64.reduceToNat] at small ⊢
    omega

variable [FeatureTests F]

/-- The object of a range has the size that is written in front, and the reader takes all of it for the rows of the range. -/
theorem s3_round_trip (w : Wire B F) (labelled : Bool) (ds : SparseDataset F) (l r : UInt64) (ordered : l < r)
    (within : r.toNat ≤ ds.data.length) (few : r.toNat - l.toNat < 1000000)
    (matched : labelled → ds.labels.length = ds.data.length)
    (labels : ∀ x ∈ (slice labelled ds l.toNat r.toNat).labels, FeatureTests.isLabel x)
    (short : ∀ row ∈ (slice labelled ds l.toNat r.toNat).data, row.length ≤ 1000000)
    (small : objectBytes labelled (slice labelled ds l.toNat r.toNat).data < 2 ^ 31) :
    ∃ object size rest, buildSerializedS3Obj w labelled ds l r = .ok object ∧
      object.length = (objSize labelled ds l r).toNat ∧ object = w.int.put size ++ rest ∧
      size.toInt = (objSize labelled ds l r).toNat ∧
      Decodes (fromS3 w labelled) object (slice labelled ds l.toNat r.toNat) := by
  have rows := slice_length labelled (l := l.toNat) within
  rw [UInt64.lt_iff_toNat_lt] at ordered
  have size := objSize_toNat (UInt64.lt_iff_toNat_lt.mpr ordered) within small
  have matched' : labelled →
      (slice labelled ds l.toNat r.toNat).labels.length = (slice labelled ds l.toNat r.toNat).data.length := by
    intro stored
    rw [slice, if_pos stored, List.length_take, List.length_take, List.length_drop, List.length_drop, matched stored]
  have count := samples_length matched'
  have stored := storeSamples_gives (w := w) matched (r.toNat - l.toNat) (i := l.toNat)
    (by rw [samples_length matched]; omega)
  rw [samples_slice] at stored
  have marked : ∀ s ∈ samples labelled (slice labelled ds l.toNat r.toNat), s.1.isSome = labelled := samples_isSome
  have length := putSamples_length (w := w) marked
  have back : (samples labelled (slice labelled ds l.toNat r.toNat)).map Prod.snd = (slice labelled ds l.toNat r.toNat).data :=
    congrArg SparseDataset.data (dataset_samples matched' fun without => if_neg without)
  rw [back, ← size] at length
  have number : (r - l).toNat = (samples labelled (slice labelled ds l.toNat r.toNat)).length := by
    rw [UInt64.toNat_sub_of_le r l (UInt64.le_of_lt (UInt64.lt_iff_toNat_lt.mpr ordered)), count, rows]
  have each : ∀ s ∈ samples labelled (slice labelled ds l.toNat r.toNat),
      s.1.isSome = labelled ∧ (∀ x ∈ s.1, FeatureTests.isLabel x) ∧ s.2.length ≤ 1000000 := by
    intro s member
    refine ⟨marked s member, fun x label => labels x ?_, short s.2 ?_⟩
    · have whole := congrArg SparseDataset.labels (dataset_samples matched' fun without => if_neg without)
      rw [← whole]
      exact List.mem_filterMap.mpr ⟨s, member, label⟩
    · rw [← back]
      exact List.mem_map_of_mem member
  have decodes := fromS3_decodes (w := w) (objSize labelled ds l r).toUInt32.toInt32 (by omega) (by omega) each
  rw [dataset_samples matched' fun without => if_neg without, ← number, ← narrow_toInt] at decodes
  have whole : ∀ a b : Int32, (w.int.put a ++ (w.int.put b ++
      (samples labelled (slice labelled ds l.toNat r.toNat)).flatMap (putSample w))).length = (objSize labelled ds l r).toNat := by
    intro a b
    rw [List.length_append, List.length_append, w.int.put_length, w.int.put_length]
    omega
  refine ⟨_, (objSize labelled ds l r).toUInt32.toInt32, _, ?_, whole _ _, rfl, ?_, decodes⟩
  · unfold buildSerializedS3Obj
    rw [if_neg (not_not.mpr (UInt64.lt_iff_toNat_lt.mpr ordered))]
    exact (Loops.bind_of_ok stored _).trans (if_pos (whole _ _))
  · rw [narrow_toInt]
    exact LRSparseGradient.toInt_toInt (by rw [size]; exact small)

end Samples
section Runs

def fourSamples : SparseDataset UInt32 where
  data := [[(1, 5)], [], [(2, 7), (3, 8)], [(4, 9)]]
  labels := [0, 0x3f800000, 0, 0]

theorem s3_round_trip_two : ∃ object size rest, buildSerializedS3Obj Wire.littleEndian true fourSamples 1 3 = .ok object ∧
    object.length = 40 ∧ object = Wire.littleEndian.int.put size ++ rest ∧ size.toInt = 40 ∧
    Decodes (fromS3 Wire.littleEndian true) object ⟨[[], [(2, 7), (3, 8)]], [0x3f800000, 0]⟩ :=
  s3_round_trip Wire.littleEndian true fourSamples 1 3 (by decide) (by decide) (by decide) (fun _ => rfl)
    (List.forall_mem_cons.mpr ⟨by decide, List.forall_mem_singleton.mpr (by decide)⟩)
    (List.forall_mem_cons.mpr ⟨by decide, List.forall_mem_singleton.mpr (by decide)⟩) (by decide)

end Runs
end SparseObject

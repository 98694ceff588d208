import Cirrus.MFSparseCodec

/-!
The dense model in bytes: `serializeTo` writes its vectors one after the other,
and `loadSerialized` resizes the vectors of the object that it is called on and
stores each value at the place that its row and its factor have.
-/
namespace MF
open Gradients SparseLR Loops Decoder
variable {B F : Type}

namespace MFModel

/-- `v.resize(n)`. -/
def resize [Zero F] (v : List F) (n : Nat) : Except Fault (List F) :=
  if maxSize < n then .error (.exception "vector::_M_default_append")
  else .ok (v.take n ++ List.replicate (n - v.length) 0)

/-- A loop `for (uint32_t i = 0; i < n; ++i)`. A counter of 32 bits is below 2^32 forever. -/
def counted {S : Type} (n : UInt64) (turn : UInt32 → S → Decoder B S) (s : S) : Decoder B S :=
  if n.toNat < 2 ^ 32 then (List.range n.toNat).foldlM (fun s i => turn (UInt32.ofNat i) s) s
  else lift (.error .undefined)

/-- `v.at(i) = x`. -/
def setCheckedAt (v : List F) (i : Nat) (x : F) : Except Fault (List F) :=
  if i < v.length then .ok (v.set i x) else .error rangeError

def readBias (w : Wire B F) (i : UInt32) (v : List F) : Decoder B (List F) := do
  let x ← w.feature.load
  lift (setAt v i.toNat x)

def readWeight (w : Wire B F) (nfactors : UInt64) (i j : UInt32) (v : List F) : Decoder B (List F) := do
  let x ← w.feature.load
  lift (setCheckedAt v (i.toUInt64 * nfactors + j.toUInt64).toNat x)

/-- `loadSerialized`, called on an object that may hold another model. -/
def loadInto [Zero F] [OfScientific F] (w : Wire B F) (own : MFModel F) : Decoder B (MFModel F) := do
  let nusers ← w.u64.load
  let nitems ← w.u64.load
  let nfactors ← w.u64.load
  let userWeights ← lift (resize own.userWeights (nusers * nfactors).toNat)
  let itemWeights ← lift (resize own.itemWeights (nitems * nfactors).toNat)
  let userBias ← lift (resize own.userBias nusers.toNat)
  let itemBias ← lift (resize own.itemBias nitems.toNat)
  let userBias ← counted nusers (readBias w) userBias
  let itemBias ← counted nitems (readBias w) itemBias
  let userWeights ← counted nusers (fun i => counted nfactors (readWeight w nfactors i)) userWeights
  let itemWeights ← counted nitems (fun i => counted nfactors (readWeight w nfactors i)) itemWeights
  pure
    { nusers := nusers
      nitems := nitems
      nfactors := nfactors
      userWeights := userWeights
      itemWeights := itemWeights
      userBias := userBias
      itemBias := itemBias
      globalBias := initialGlobalBias }

structure LossOps (F : Type) where
  pow2 : F → F
  isNan : F → Bool
  toString : F → String

section Loss
variable [Zero F] [Add F] [Sub F] [Mul F]

def addLoss (ops : LossOps F) (m : MFModel F) (offUserId : UInt64) (s : F × UInt64) (e : Int32 × F) :
    Except Fault (F × UInt64) := do
  let movieId := wide e.1
  let rating := e.2
  let prediction ← m.predict offUserId.toUInt32 movieId.toUInt32
  let difference := rating - prediction
  let error := s.1 + ops.pow2 difference
  if ops.isNan difference || ops.isNan error then
    throw (.exception ("nan in calc_loss rating: " ++ ops.toString rating ++ " prediction: " ++ ops.toString prediction))
  pure (error, s.2 + 1)

def calcLoss (ops : LossOps F) (m : MFModel F) (ds : SparseDataset F) (startIndex : UInt32) : Except Fault (F × UInt64) := do
  let loss ← ds.data.zipIdx.foldlM
    (fun s sample => sample.1.foldlM (addLoss ops m (UInt64.ofNat sample.2 + startIndex.toUInt64)) s) (0, 0)
  if ops.isNan loss.1 then throw (.exception "error isnan")
  pure loss

end Loss

/-- A model whose vectors have the sizes that the constructor gives them, with any number of factors. -/
structure Sized (m : MFModel F) : Prop where
  userBias : m.userBias.length = m.nusers.toNat
  itemBias : m.itemBias.length = m.nitems.toNat
  userWeights : m.userWeights.length = m.nusers.toNat * m.nfactors.toNat
  itemWeights : m.itemWeights.length = m.nitems.toNat * m.nfactors.toNat
  users : m.nusers.toNat * m.nfactors.toNat ≤ maxSize
  items : m.nitems.toNat * m.nfactors.toNat ≤ maxSize

theorem serializeTo_length (w : Wire B F) (m : MFModel F) : (m.serializeTo w).length = m.getSerializedSize := by
  simp only [serializeTo, List.length_append, w.u64.put_length, w.feature.flatMap_put_length, getSerializedSize]
  omega

section Filling
variable {w : Wire B F} {xs old : List F} {rest : List B}

def filled (w : Wire B F) (xs old : List F) (rest : List B) (k : Nat) : List F × List B :=
  (xs.take k ++ old.drop k, (xs.drop k).flatMap w.feature.put ++ rest)

theorem filled_start : filled w xs old rest 0 = (old, xs.flatMap w.feature.put ++ rest) := rfl

theorem filled_end (same : old.length = xs.length) : filled w xs old rest xs.length = (xs, rest) := by
  rw [filled, List.take_length, List.drop_length, ← same, List.drop_length, List.append_nil]
  rfl

theorem filled_fst_length (same : old.length = xs.length) (k : Nat) : (filled w xs old rest k).1.length = xs.length := by
  rw [filled, List.length_append, List.length_take, List.length_drop, same]
  omega

theorem filled_set (same : old.length = xs.length) {k : Nat} (inside : k < xs.length) :
    (filled w xs old rest k).1.set k xs[k] = (filled w xs old rest (k + 1)).1 := by
  have front : (xs.take k).length = k := List.length_take_of_le (Nat.le_of_lt inside)
  have back : old.drop k = old[k] :: old.drop (k + 1) := List.drop_eq_getElem_cons (by omega)
  rw [filled, filled, back, List.set_append_right _ _ (by omega), front, Nat.sub_self, List.set_cons_zero,
    List.take_add_one, List.getElem?_eq_getElem inside, List.append_assoc]
  rfl

theorem filled_load {k : Nat} (inside : k < xs.length) :
    w.feature.load (filled w xs old rest k).2 = .ok (xs[k], (filled w xs old rest (k + 1)).2) := by
  rw [filled, List.drop_eq_getElem_cons inside, List.flatMap_cons, List.append_assoc, w.feature.load_put]
  rfl

theorem counted_fills {S : Type} (turn : UInt32 → S → Decoder B S) (state : Nat → S × List B) {n : UInt64}
    (small : n.toNat < 2 ^ 32)
    (step : ∀ i : UInt32, i.toNat < n.toNat → turn i (state i.toNat).1 (state i.toNat).2 = .ok (state (i.toNat + 1))) :
    counted n turn (state 0).1 (state 0).2 = .ok (state n.toNat) := by
  obtain ⟨p, done, rfl⟩ := foldlM_gives (l := List.range n.toNat) (s := state 0)
    (f := fun p i => turn (UInt32.ofNat i) p.1 p.2) (P := fun seen p => p = state seen.length)
    (by
      rintro seen i here _ rfl
      obtain ⟨rfl, below⟩ := eq_length_of_prefix_range here
      have counter : (UInt32.ofNat seen.length).toNat = seen.length := UInt32.toNat_ofNat_of_lt' (Nat.lt_trans below small)
      have turned := step (UInt32.ofNat seen.length) (by rwa [counter])
      rw [counter] at turned
      refine ⟨_, turned, ?_⟩
      rw [List.length_append, List.length_singleton])
    rfl
  rw [counted, if_pos small, foldlM_apply]
  rwa [List.length_range] at done

theorem counted_readBias (same : old.length = xs.length) {n : UInt64} (size : xs.length = n.toNat)
    (small : n.toNat < 2 ^ 32) : Decodes (counted n (readBias w) old) (xs.flatMap w.feature.put) xs := by
  intro rest
  have fills := counted_fills (readBias w) (filled w xs old rest) small (by
    intro i below
    rw [← size] at below
    have room : i.toNat < (filled w xs old rest i.toNat).1.length := by rwa [filled_fst_length same]
    rw [readBias, bind_ok (filled_load below), setAt_of_lt room, filled_set same below]
    rfl)
  rwa [← size, filled_end same, filled_start] at fills

theorem readWeight_fills (same : old.length = xs.length) {nfactors : UInt64} {n : Nat}
    (size : xs.length = n * nfactors.toNat) (bound : n * nfactors.toNat ≤ maxSize) {i j : UInt32} (row : i.toNat < n)
    (column : j.toNat < nfactors.toNat) :
    readWeight w nfactors i j (filled w xs old rest (i.toNat * nfactors.toNat + j.toNat)).1
        (filled w xs old rest (i.toNat * nfactors.toNat + j.toNat)).2 =
      .ok (filled w xs old rest (i.toNat * nfactors.toNat + (j.toNat + 1))) := by
  have next : i.toNat * nfactors.toNat + nfactors.toNat ≤ n * nfactors.toNat := by
    rw [← Nat.succ_mul]
    exact Nat.mul_le_mul_right _ row
  have inside : i.toNat * nfactors.toNat + j.toNat < xs.length := by omega
  have place : (i.toUInt64 * nfactors + j.toUInt64).toNat = i.toNat * nfactors.toNat + j.toNat := by
    rw [UInt64.toNat_add, UInt64.toNat_mul, UInt32.toNat_toUInt64, UInt32.toNat_toUInt64]
    rw [maxSize] at bound
    rw [Nat.mod_eq_of_lt (show i.toNat * nfactors.toNat < 2 ^ 64 by omega)]
    exact Nat.mod_eq_of_lt (by omega)
  have room : i.toNat * nfactors.toNat + j.toNat < (filled w xs old rest (i.toNat * nfactors.toNat + j.toNat)).1.length := by
    rwa [filled_fst_length same]
  rw [readWeight, bind_ok (filled_load inside), place, setCheckedAt, if_pos room, filled_set same inside]
  rfl

theorem counted_readWeight (same : old.length = xs.length) {n nfactors : UInt64} (size : xs.length = n.toNat * nfactors.toNat)
    (bound : n.toNat * nfactors.toNat ≤ maxSize) (small : n.toNat < 2 ^ 32) (few : nfactors.toNat < 2 ^ 32) :
    Decodes (counted n (fun i => counted nfactors (readWeight w nfactors i)) old) (xs.flatMap w.feature.put) xs := by
  intro rest
  have fills := counted_fills (fun i => counted nfactors (readWeight w nfactors i))
    (fun i => filled w xs old rest (i * nfactors.toNat)) small (by
    intro i row
    have cells := counted_fills (readWeight w nfactors i)
      (fun j => filled w xs old rest (i.toNat * nfactors.toNat + j)) few
      fun j column => readWeight_fills same size bound row column
    rwa [Nat.add_zero, ← Nat.succ_mul] at cells)
  rwa [Nat.zero_mul, ← size, filled_end same, filled_start] at fills

theorem resize_gives [Zero F] (v : List F) {n : Nat} (bound : n ≤ maxSize) : ∃ v', resize v n = .ok v' ∧ v'.length = n := by
  refine ⟨_, if_neg (Nat.not_lt.mpr bound), ?_⟩
  rw [List.length_append, List.length_take, List.length_replicate]
  omega

end Filling

section RoundTrip
variable [Zero F] [OfScientific F]

theorem loadInto_serializeTo (w : Wire B F) {m : MFModel F} (sized : m.Sized) (fresh : m.globalBias = initialGlobalBias)
    (users : m.nusers.toNat < 2 ^ 32) (items : m.nitems.toNat < 2 ^ 32) (factors : m.nfactors.toNat < 2 ^ 32)
    (own : MFModel F) : Decodes (loadInto w own) (m.serializeTo w) m := by
  have large : 2 ^ 32 ≤ maxSize := by decide
  have product : ∀ n : UInt64, n.toNat * m.nfactors.toNat ≤ maxSize → (n * m.nfactors).toNat = n.toNat * m.nfactors.toNat := by
    intro n bound
    rw [UInt64.toNat_mul]
    rw [maxSize] at bound
    exact Nat.mod_eq_of_lt (by omega)
  obtain ⟨userWeights, resized, length⟩ := resize_gives own.userWeights sized.users
  obtain ⟨itemWeights, resized', length'⟩ := resize_gives own.itemWeights sized.items
  obtain ⟨userBias, biases, many⟩ := resize_gives own.userBias (Nat.le_trans (Nat.le_of_lt users) large)
  obtain ⟨itemBias, biases', many'⟩ := resize_gives own.itemBias (Nat.le_trans (Nat.le_of_lt items) large)
  have lifted : ∀ {A : Type} {r : Except Fault A} {a : A}, r = .ok a → Decodes (lift r : Decoder B A) [] a := by
    intro A r a ok rest
    rw [ok]
    rfl
  rw [serializeTo, loadInto]
  apply Decodes.bind (.load w.u64 _)
  apply Decodes.bind (.load w.u64 _)
  apply Decodes.bind (.load w.u64 _)
  rw [product _ sized.users, product _ sized.items]
  apply Decodes.skip (lifted resized)
  apply Decodes.skip (lifted resized')
  apply Decodes.skip (lifted biases)
  apply Decodes.skip (lifted biases')
  apply Decodes.bind (counted_readBias (many.trans sized.userBias.symm) sized.userBias users)
  apply Decodes.bind (counted_readBias (many'.trans sized.itemBias.symm) sized.itemBias items)
  apply Decodes.bind
    (counted_readWeight (length.trans sized.userWeights.symm) sized.userWeights sized.users users factors)
  rw [← List.append_nil (m.itemWeights.flatMap w.feature.put)]
  apply Decodes.bind
    (counted_readWeight (length'.trans sized.itemWeights.symm) sized.itemWeights sized.items items factors)
  rw [← fresh]
  exact .pure m

structure SameData (m m' : MFModel F) : Prop where
  nusers : m.nusers = m'.nusers
  nitems : m.nitems = m'.nitems
  nfactors : m.nfactors = m'.nfactors
  userBias : m.userBias = m'.userBias
  itemBias : m.itemBias = m'.itemBias
  userWeights : m.userWeights = m'.userWeights
  itemWeights : m.itemWeights = m'.itemWeights

variable [Add F] [Sub F] [Mul F]

/-- A dense model is read back from exactly the bytes that it is written to, and predicts what it did. -/
theorem dense_round_trip (w : Wire B F) (m own : MFModel F) (sized : m.Sized) (fresh : m.globalBias = initialGlobalBias)
    (users : m.nusers.toNat < 2 ^ 32) (items : m.nitems.toNat < 2 ^ 32) (factors : m.nfactors.toNat < 2 ^ 32) :
    (m.serializeTo w).length = m.getSerializedSize ∧ ∃ loaded, Decodes (loadInto w own) (m.serializeTo w) loaded ∧
      SameData loaded m ∧ (∀ u i : UInt32, loaded.predict u i = m.predict u i) ∧
      ∀ (ops : LossOps F) (ds : SparseDataset F) (startIndex : UInt32),
        loaded.calcLoss ops ds startIndex = m.calcLoss ops ds startIndex := by
  refine ⟨m.serializeTo_length w, m, loadInto_serializeTo w sized fresh users items factors own, ?_, ?_, ?_⟩
  · constructor <;> rfl
  · intro u i
    rfl
  · intro ops ds startIndex
    rfl

end RoundTrip

theorem twoUsers_sized : SparseMFModel.twoUsers.Sized where
  userBias := rfl
  itemBias := rfl
  userWeights := rfl
  itemWeights := rfl
  users := by decide
  items := by decide

theorem dense_round_trip_reused :
    ∃ loaded, Decodes (loadInto Exact.wire (SparseMFModel.manyItems)) (SparseMFModel.twoUsers.serializeTo Exact.wire) loaded ∧
      SameData loaded SparseMFModel.twoUsers := by
  obtain ⟨_, loaded, decodes, same, _⟩ := dense_round_trip Exact.wire SparseMFModel.twoUsers SparseMFModel.manyItems
    twoUsers_sized rfl (by decide) (by decide) (by decide)
  exact ⟨loaded, decodes, same⟩

end MFModel
end MF

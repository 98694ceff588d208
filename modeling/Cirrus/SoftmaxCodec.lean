import Cirrus.SparseLRModel

/-!
`SoftmaxModel` in bytes: the two writers, and the two readers. `loadSerialized`
copies as many values as the object it is called on has, which need not be as
many as there are, and `deserialize` skips the header that `loadSerialized` skips
again.
-/
namespace Softmax
open Gradients SparseLR Loops Decoder
variable {B F : Type}

structure SoftmaxModel (F : Type) where
  nclasses : UInt64
  d : UInt64
  weights : List (List F)
  deriving DecidableEq

/-- `max_size` of vectors of floats and of vectors of those. -/
def maxSize : Nat := (2 ^ 63 - 1) / 4

def maxRows : Nat := (2 ^ 63 - 1) / 24

/-- `v.resize(n)` -/
def resize {α : Type} (limit : Nat) (zero : α) (v : List α) (n : Nat) : Except Fault (List α) :=
  if limit < n then .error (.exception "vector::_M_default_append")
  else .ok (v.take n ++ List.replicate (n - v.length) zero)

theorem resize_ok {α : Type} {limit n : Nat} {zero : α} {v v' : List α} :
    resize limit zero v n = .ok v' ↔ n ≤ limit ∧ v' = v.take n ++ List.replicate (n - v.length) zero := by
  rw [resize]
  split
  · rename_i large
    exact ⟨nofun, fun h => (Nat.not_le.mpr large h.1).elim⟩
  · rename_i small
    rw [Except.ok.injEq, eq_comm]
    exact ⟨fun same => ⟨Nat.le_of_not_lt small, same⟩, And.right⟩

theorem resize_nil_ok {α : Type} {limit n : Nat} {zero : α} {v : List α} :
    resize limit zero [] n = .ok v ↔ n ≤ limit ∧ v = List.replicate n zero := by
  rw [resize_ok, List.take_nil, List.nil_append, List.length_nil, Nat.sub_zero]

/-- `weights.resize(rows)`, and each of them to `columns`. -/
def resizeAll [Zero F] (weights : List (List F)) (rows columns : UInt64) : Except Fault (List (List F)) := do
  let weights ← resize maxRows [] weights rows.toNat
  weights.mapM fun v => resize maxSize 0 v columns.toNat

namespace SoftmaxModel

def getSerializedSize (m : SoftmaxModel F) : UInt64 := 4 * m.d * m.nclasses + 8 * 2

/-- `w[i * nclasses + j] = weights[i][j]` -/
def storeEntry (m : SoftmaxModel F) (i : Nat) (w : List F) (j : Nat) : Except Fault (List F) := do
  let row ← at' m.weights i
  let x ← at' row j
  setAt w (UInt64.ofNat i * m.nclasses + UInt64.ofNat j).toNat x

def storeRow (m : SoftmaxModel F) (w : List F) (i : Nat) : Except Fault (List F) :=
  (List.range m.nclasses.toNat).foldlM (m.storeEntry i) w

/-- The loops of `serialize` and of `serializeTo` over the floats behind the header. -/
def storeWeights (m : SoftmaxModel F) (w : List F) : Except Fault (List F) :=
  (List.range m.d.toNat).foldlM m.storeRow w

/-- The memory is that of these floats, after the header. -/
def serializeTo (w : Wire B F) (m : SoftmaxModel F) (memory : List F) : Except Fault (List B) := do
  let floats ← m.storeWeights memory
  .ok (w.u64.put m.d ++ (w.u64.put m.nclasses ++ floats.flatMap w.feature.put))

/-- The floats of the new buffer are `fresh` ones. -/
def serialize (w : Wire B F) (m : SoftmaxModel F) (fresh : Nat → F) : Except Fault (List B × UInt64) := do
  let size := m.getSerializedSize
  let floats ← m.storeWeights ((List.range ((size.toNat - 8 * 2) / 4)).map fresh)
  .ok (w.u64.put m.d ++ (w.u64.put m.nclasses ++ floats.flatMap w.feature.put), size)

/-- `std::copy(w + i * nclasses, w + (i + 1) * nclasses, weights[i].begin())`, where `w + i * nclasses` is what
was not read yet. -/
def copyRow (w : Wire B F) (nclasses : UInt64) (weights : List (List F)) (i : Nat) : Decoder B (List (List F)) := do
  let values ← rounds (fun _ => w.feature.load) 0 nclasses.toNat
  let row ← lift (at' weights i)
  check (nclasses.toNat ≤ row.length) .undefined
  lift (setAt weights i (values ++ row.drop nclasses.toNat))

/-- `loadSerialized`, called on `own`. -/
def loadInto [Zero F] (w : Wire B F) (own : SoftmaxModel F) : Decoder B (SoftmaxModel F) := do
  let dim ← w.u64.load
  let classes ← w.u64.load
  let weights ← lift (resizeAll own.weights dim classes)
  let weights ← (List.range own.d.toNat).foldlM (copyRow w own.nclasses) weights
  pure { own with weights := weights }

/-- The constructor that loads the weights. -/
def ofData [Zero F] (w : Wire B F) (nclasses d : UInt64) : Decoder B (SoftmaxModel F) := do
  let weights ← lift (resizeAll [] d nclasses)
  loadInto w { nclasses := nclasses, d := d, weights := weights }

def deserialize [Zero F] (w : Wire B F) : Decoder B (SoftmaxModel F) := do
  let dim ← w.u64.load
  let classes ← w.u64.load
  ofData w classes dim

/-- A model whose vectors have the sizes of its members, in a memory that holds them. -/
structure Sized (m : SoftmaxModel F) : Prop where
  rows : m.weights.length = m.d.toNat
  columns : ∀ row ∈ m.weights, row.length = m.nclasses.toNat
  few : m.d.toNat ≤ maxRows
  short : m.nclasses.toNat ≤ maxSize
  fits : 4 * (m.d.toNat * m.nclasses.toNat) + 8 * 2 < 2 ^ 64

def layout (w : Wire B F) (m : SoftmaxModel F) : List B :=
  w.u64.put m.d ++ (w.u64.put m.nclasses ++ m.weights.flatten.flatMap w.feature.put)

section Storing
variable {m : SoftmaxModel F}

theorem splice_set {α : Type} {xs old : List α} {k : Nat} {x : α} (here : xs[k]? = some x) (inside : k < old.length) :
    (xs.take k ++ old.drop k).set k x = xs.take (k + 1) ++ old.drop (k + 1) := by
  obtain ⟨within, value⟩ := List.getElem?_eq_some_iff.mp here
  have front : (xs.take k).length = k := List.length_take_of_le (Nat.le_of_lt within)
  rw [List.set_append_right _ _ (Nat.le_of_eq front), front, Nat.sub_self, List.drop_eq_getElem_cons inside,
    List.set_cons_zero, List.take_succ_eq_append_getElem within, List.append_assoc, value]
  rfl

theorem flatten_length {rows : List (List F)} {n : Nat} (columns : ∀ row ∈ rows, row.length = n) :
    rows.flatten.length = rows.length * n := by
  induction rows with
  | nil => rw [List.flatten_nil, List.length_nil, List.length_nil, Nat.zero_mul]
  | cons row rest ih =>
    rw [List.forall_mem_cons] at columns
    rw [List.flatten_cons, List.length_append, ih columns.2, columns.1, List.length_cons, Nat.succ_mul, Nat.add_comm]

theorem flatten_entry {rows : List (List F)} {n i j : Nat} {row : List F} {x : F} (columns : ∀ row ∈ rows, row.length = n)
    (there : rows[i]? = some row) (here : row[j]? = some x) : rows.flatten[i * n + j]? = some x := by
  induction rows generalizing i with
  | nil => cases there
  | cons first rest ih =>
    rw [List.forall_mem_cons] at columns
    rw [List.flatten_cons]
    cases i with
    | zero =>
      obtain rfl := Option.some.inj there
      rw [Nat.zero_mul, Nat.zero_add, List.getElem?_append_left (List.getElem?_eq_some_iff.mp here).1]
      exact here
    | succ i =>
      rw [Nat.succ_mul, List.getElem?_append_right (by rw [columns.1]; omega), columns.1]
      have place : i * n + n + j - n = i * n + j := by omega
      rw [place]
      exact ih columns.2 there

theorem Sized.index (sized : Sized m) {i j : Nat} (row : i < m.d.toNat) (column : j < m.nclasses.toNat) :
    i * m.nclasses.toNat + j < m.d.toNat * m.nclasses.toNat ∧
      (UInt64.ofNat i * m.nclasses + UInt64.ofNat j).toNat = i * m.nclasses.toNat + j := by
  have fits := sized.fits
  have part : (i + 1) * m.nclasses.toNat ≤ m.d.toNat * m.nclasses.toNat := Nat.mul_le_mul_right _ row
  rw [Nat.succ_mul] at part
  have inside : i * m.nclasses.toNat + j < m.d.toNat * m.nclasses.toNat := by omega
  have rows : i < 2 ^ 64 := Nat.lt_trans row m.d.toNat_lt
  have columns : j < 2 ^ 64 := Nat.lt_trans column m.nclasses.toNat_lt
  refine ⟨inside, ?_⟩
  rw [UInt64.toNat_add, UInt64.toNat_mul, UInt64.toNat_ofNat_of_lt' rows, UInt64.toNat_ofNat_of_lt' columns,
    Nat.mod_add_mod, Nat.mod_eq_of_lt (by omega)]

theorem Sized.whole (sized : Sized m) : m.weights.flatten.length = m.d.toNat * m.nclasses.toNat := by
  rw [flatten_length sized.columns, sized.rows]

def stored (m : SoftmaxModel F) (memory : List F) (n : Nat) : List F := m.weights.flatten.take n ++ memory.drop n

theorem storeEntry_ok (sized : Sized m) {memory : List F} (room : m.d.toNat * m.nclasses.toNat ≤ memory.length) {i j : Nat}
    (row : i < m.d.toNat) (column : j < m.nclasses.toNat) :
    m.storeEntry i (m.stored memory (i * m.nclasses.toNat + j)) j =
      .ok (m.stored memory (i * m.nclasses.toNat + j + 1)) := by
  have there : m.weights[i]? = some _ := List.getElem?_eq_getElem (by rw [sized.rows]; exact row)
  have columns := sized.columns _ (List.mem_of_getElem? there)
  have here := List.getElem?_eq_getElem (Nat.lt_of_lt_of_eq column columns.symm)
  obtain ⟨inside, place⟩ := sized.index row column
  have set := @splice_set F m.weights.flatten memory _ _ (flatten_entry sized.columns there here) (by omega)
  have within : i * m.nclasses.toNat + j < (m.stored memory (i * m.nclasses.toNat + j)).length := by
    rw [stored, List.length_append, List.length_take_of_le (by rw [sized.whole]; omega), List.length_drop]
    omega
  unfold storeEntry at'
  rw [there, bind_of_ok rfl, here, bind_of_ok rfl, place, setAt, if_pos within, stored, set, stored]

theorem storeRow_ok (sized : Sized m) {memory : List F} (room : m.d.toNat * m.nclasses.toNat ≤ memory.length) {i : Nat}
    (row : i < m.d.toNat) :
    m.storeRow (m.stored memory (i * m.nclasses.toNat)) i = .ok (m.stored memory ((i + 1) * m.nclasses.toNat)) := by
  obtain ⟨floats, done, same⟩ := foldlM_gives (l := List.range m.nclasses.toNat)
    (P := fun seen floats => floats = m.stored memory (i * m.nclasses.toNat + seen.length))
    (fun seen j here floats before => by
      obtain ⟨rfl, column⟩ := eq_length_of_prefix_range here
      rw [before, List.length_append, List.length_singleton]
      exact ⟨_, storeEntry_ok sized room row column, rfl⟩) rfl
  rw [List.length_range, ← Nat.succ_mul] at same
  rw [← same]
  exact done

theorem storeWeights_ok (sized : Sized m) {memory : List F} (room : m.d.toNat * m.nclasses.toNat ≤ memory.length) :
    m.storeWeights memory = .ok (m.weights.flatten ++ memory.drop (m.d.toNat * m.nclasses.toNat)) := by
  have start : memory = m.stored memory (([] : List Nat).length * m.nclasses.toNat) := by
    rw [List.length_nil, Nat.zero_mul]
    rfl
  obtain ⟨floats, done, same⟩ := foldlM_gives (l := List.range m.d.toNat)
    (P := fun seen floats => floats = m.stored memory (seen.length * m.nclasses.toNat))
    (fun seen i here floats before => by
      obtain ⟨rfl, row⟩ := eq_length_of_prefix_range here
      rw [before, List.length_append, List.length_singleton]
      exact ⟨_, storeRow_ok sized room row, rfl⟩) start
  rw [List.length_range, stored, ← sized.whole, List.take_length, sized.whole] at same
  rw [storeWeights, done, same]

end Storing

section Loading
variable {w : Wire B F} {m own : SoftmaxModel F}

theorem resize_length {α : Type} (zero : α) (v : List α) (n : Nat) :
    (v.take n ++ List.replicate (n - v.length) zero).length = n := by
  rw [List.length_append, List.length_take, List.length_replicate]
  omega

theorem copyRow_ok {weights : List (List F)} {nclasses : UInt64} {i : Nat} {row before : List F}
    (there : weights[i]? = some before) (size : row.length = nclasses.toNat) (same : before.length = nclasses.toNat)
    (rest : List B) :
    copyRow w nclasses weights i (row.flatMap w.feature.put ++ rest) = .ok (weights.set i row, rest) := by
  have inside := (List.getElem?_eq_some_iff.mp there).1
  have values : rounds (fun _ => w.feature.load) 0 nclasses.toNat (row.flatMap w.feature.put ++ rest) = .ok (row, rest) := by
    rw [← size]
    exact Decodes.rounds 0 row (fun _ x _ _ => .load w.feature x) rest
  have found : (lift (at' weights i) : Decoder B (List F)) rest = .ok (before, rest) := by
    unfold lift at'
    rw [there]
    rfl
  have fits : (check (nclasses.toNat ≤ before.length) .undefined : Decoder B Unit) rest = .ok ((), rest) := by
    rw [check_pos (Nat.le_of_eq same.symm), pure_apply]
  unfold copyRow
  rw [bind_ok values, bind_ok found, bind_ok fits, ← same, List.drop_length, List.append_nil, lift, setAt, if_pos inside]
  rfl

def copied (w : Wire B F) (m : SoftmaxModel F) (rows : List (List F)) (rest : List B) (n : Nat) : List (List F) × List B :=
  (m.weights.take n ++ rows.drop n, (m.weights.drop n).flatten.flatMap w.feature.put ++ rest)

theorem copied_next (sized : Sized m) {rows : List (List F)} (length : rows.length = m.d.toNat)
    (columns : ∀ row ∈ rows, row.length = m.nclasses.toNat) {i : Nat} (inside : i < m.d.toNat) (rest : List B) :
    copyRow w m.nclasses (copied w m rows rest i).1 i (copied w m rows rest i).2 = .ok (copied w m rows rest (i + 1)) := by
  have within : i < m.weights.length := by rw [sized.rows]; exact inside
  have within' : i < rows.length := by rw [length]; exact inside
  have there : (m.weights.take i ++ rows.drop i)[i]? = some rows[i] := by
    rw [List.getElem?_append_right (List.length_take_le _ _), List.length_take_of_le (Nat.le_of_lt within), Nat.sub_self,
      List.getElem?_drop, Nat.add_zero, List.getElem?_eq_getElem within']
  have memory : (m.weights.drop i).flatten.flatMap w.feature.put ++ rest =
      m.weights[i].flatMap w.feature.put ++ ((m.weights.drop (i + 1)).flatten.flatMap w.feature.put ++ rest) := by
    rw [List.drop_eq_getElem_cons within, List.flatten_cons, List.flatMap_append, List.append_assoc]
  have size := sized.columns _ (List.getElem_mem within)
  have same := columns _ (List.getElem_mem within')
  unfold copied
  rw [memory, copyRow_ok there size same, splice_set (List.getElem?_eq_getElem within) within']

theorem copyRows_decodes (sized : Sized m) {rows : List (List F)} (length : rows.length = m.d.toNat)
    (columns : ∀ row ∈ rows, row.length = m.nclasses.toNat) :
    Decodes ((List.range m.d.toNat).foldlM (copyRow w m.nclasses) rows) (m.weights.flatten.flatMap w.feature.put)
      m.weights := by
  intro rest
  obtain ⟨p, done, same⟩ := foldlM_gives (l := List.range m.d.toNat) (s := (rows, m.weights.flatten.flatMap w.feature.put ++ rest))
    (f := fun p i => copyRow w m.nclasses p.1 i p.2) (P := fun seen p => p = copied w m rows rest seen.length)
    (fun seen i here p before => by
      obtain ⟨rfl, inside⟩ := eq_length_of_prefix_range here
      rw [before, List.length_append, List.length_singleton]
      exact ⟨_, copied_next sized length columns inside rest, rfl⟩) rfl
  rw [List.length_range, copied, ← sized.rows, List.take_length, sized.rows, ← length, List.drop_length,
    List.append_nil, length, ← sized.rows, List.drop_length] at same
  rw [foldlM_apply, done, same]
  rfl

theorem layout_length (w : Wire B F) (sized : Sized m) :
    (layout w m).length = 8 + (8 + 4 * (m.d.toNat * m.nclasses.toNat)) := by
  rw [layout, List.length_append, List.length_append, w.u64.put_length, w.u64.put_length, w.feature.flatMap_put_length,
    sized.whole]

variable [Zero F]

theorem resizeAll_ok (weights : List (List F)) {rows columns : UInt64} (few : rows.toNat ≤ maxRows)
    (short : columns.toNat ≤ maxSize) : ∃ resized, resizeAll weights rows columns = .ok resized ∧
      resized.length = rows.toNat ∧ ∀ row ∈ resized, row.length = columns.toNat := by
  have outer : resize maxRows [] weights rows.toNat = .ok _ := if_neg (Nat.not_lt_of_le few)
  have inner := mapM_pure (f := fun v : List F => resize maxSize 0 v columns.toNat)
    (l := weights.take rows.toNat ++ List.replicate (rows.toNat - weights.length) [])
    fun v _ => if_neg (Nat.not_lt_of_le short)
  refine ⟨_, (bind_of_ok outer _).trans inner, ?_, ?_⟩
  · rw [List.length_map, resize_length]
  · intro row member
    obtain ⟨v, _, rfl⟩ := List.mem_map.mp member
    exact resize_length 0 v columns.toNat

theorem loadInto_decodes (sized : Sized m) (dims : own.d = m.d ∧ own.nclasses = m.nclasses) :
    Decodes (loadInto w own) (layout w m) m := by
  obtain ⟨rows, resized, length, columns⟩ := resizeAll_ok own.weights sized.few sized.short
  have loaded : Decodes (lift (resizeAll own.weights m.d m.nclasses) : Decoder B (List (List F))) [] rows := by
    intro rest
    rw [resized]
    rfl
  have rest := (copyRows_decodes (w := w) sized length columns).last (f := fun weights => { own with weights := weights })
  rw [dims.1, dims.2] at rest
  unfold loadInto
  rw [dims.1, dims.2]
  exact .bind (.load w.u64 m.d) (.bind (.load w.u64 m.nclasses) (loaded.skip rest))

theorem loadInto_within (own : SoftmaxModel F) :
    Within (loadInto w own) (8 + (8 + (0 + (4 * own.nclasses.toNat * own.d.toNat + 0)))) := by
  have row (weights : List (List F)) (i : Nat) : Within (copyRow w own.nclasses weights i) (4 * own.nclasses.toNat) :=
    (Within.rounds (fun _ => .load w.feature) 0 own.nclasses.toNat).bind fun values =>
      (Within.lift (at' weights i)).bind fun before => (Within.check _ _).bind fun _ => .lift _
  have rows (weights : List (List F)) := Within.foldlM row (List.range own.d.toNat) weights
  rw [List.length_range] at rows
  exact (Within.load w.u64).bind fun dim => (Within.load w.u64).bind fun classes => (Within.lift _).bind fun weights =>
    (rows weights).bind fun loaded => .pure _

/-- The second header is taken from the weights, and then there are too few of them. -/
theorem deserialize_fails (sized : Sized m) (rest : List B) (m' : SoftmaxModel F) :
    deserialize w (layout w m) ≠ .ok (m', rest) := by
  intro done
  unfold deserialize layout at done
  rw [bind_ok (w.u64.load_put _ _), bind_ok (w.u64.load_put _ _)] at done
  obtain ⟨weights, mid, made, done⟩ := ok_of_bind done
  obtain ⟨_, rfl⟩ := (Within.lift _).takes made
  obtain ⟨enough, _⟩ := (loadInto_within _).takes done
  dsimp only at enough
  rw [List.drop_zero, w.feature.flatMap_put_length, sized.whole, Nat.mul_assoc, Nat.mul_comm m.nclasses.toNat] at enough
  omega

end Loading

section Agreement
variable {w : Wire B F} {m : SoftmaxModel F}

theorem Sized.size (sized : Sized m) : m.getSerializedSize.toNat = 4 * (m.d.toNat * m.nclasses.toNat) + 8 * 2 := by
  have fits := sized.fits
  have values : m.getSerializedSize.toNat = (4 * m.d.toNat % 2 ^ 64 * m.nclasses.toNat % 2 ^ 64 + 8 * 2) % 2 ^ 64 := by
    rw [getSerializedSize, UInt64.toNat_add, UInt64.toNat_mul, UInt64.toNat_mul]
    rfl
  rw [values, Nat.mod_mul_mod, Nat.mod_add_mod, Nat.mul_assoc, Nat.mod_eq_of_lt fits]

theorem serializeTo_ok (sized : Sized m) {memory : List F} (room : m.d.toNat * m.nclasses.toNat ≤ memory.length) :
    m.serializeTo w memory =
      .ok (layout w m ++ (memory.drop (m.d.toNat * m.nclasses.toNat)).flatMap w.feature.put) := by
  unfold serializeTo
  rw [bind_of_ok (storeWeights_ok sized room), List.flatMap_append, layout, List.append_assoc, List.append_assoc]

theorem serialize_ok (sized : Sized m) (fresh : Nat → F) :
    m.serialize w fresh = .ok (layout w m, m.getSerializedSize) := by
  have length : ((List.range ((m.getSerializedSize.toNat - 8 * 2) / 4)).map fresh).length =
      m.d.toNat * m.nclasses.toNat := by
    rw [List.length_map, List.length_range, sized.size]
    omega
  unfold serialize
  rw [bind_of_ok (storeWeights_ok sized (Nat.le_of_eq length.symm)), ← length, List.drop_length, List.append_nil, layout]

/-- What the writers make of a model: as many bytes as they should, all of them written. -/
def Stores (w : Wire B F) (m : SoftmaxModel F) (bytes : List B) : Prop :=
  bytes.length = m.getSerializedSize.toNat ∧ (∀ fresh, m.serialize w fresh = .ok (bytes, m.getSerializedSize)) ∧
    ∀ memory : List F, m.d.toNat * m.nclasses.toNat ≤ memory.length →
      m.serializeTo w memory = .ok (bytes ++ (memory.drop (m.d.toNat * m.nclasses.toNat)).flatMap w.feature.put)

variable [Zero F]

/-- The bytes make a new model, and make the model of any object, without a read past their end. -/
structure RoundTrips (w : Wire B F) (m own : SoftmaxModel F) (bytes : List B) : Prop where
  stores : Stores w m bytes
  deserializes : ∃ rest, deserialize w bytes = .ok (m, rest)
  loads : ∃ rest, loadInto w own bytes = .ok (m, rest)

/-- The bytes are right, an object of the same dimensions loads them, any other does not, and none is made of them. -/
theorem softmax_codec (w : Wire B F) (m own : SoftmaxModel F) (sized : Sized m) :
    (Stores w m (layout w m) ∧
      ((∃ rest, loadInto w own (layout w m) = .ok (m, rest)) ↔ own.d = m.d ∧ own.nclasses = m.nclasses) ∧
      ∀ rest m', deserialize w (layout w m) ≠ .ok (m', rest)) ∧
    ∀ bytes, ¬ RoundTrips w m own bytes := by
  have stores : Stores w m (layout w m) := by
    refine ⟨?_, serialize_ok sized, fun memory => serializeTo_ok sized⟩
    rw [layout_length w sized, sized.size]
    omega
  refine ⟨⟨stores, ⟨?_, ?_⟩, deserialize_fails sized⟩, ?_⟩
  · rintro ⟨rest, done⟩
    obtain ⟨dim, m₁, _, done⟩ := ok_of_bind done
    obtain ⟨classes, m₂, _, done⟩ := ok_of_bind done
    obtain ⟨resized, m₃, _, done⟩ := ok_of_bind done
    obtain ⟨weights, m₄, _, done⟩ := ok_of_bind done
    cases done
    exact ⟨rfl, rfl⟩
  · intro dims
    have decodes := loadInto_decodes (w := w) sized dims []
    rw [List.append_nil] at decodes
    exact ⟨[], decodes⟩
  · intro bytes round
    obtain ⟨rest, done⟩ := round.deserializes
    have same := (stores.2.1 fun _ => 0).symm.trans (round.stores.2.1 fun _ => 0)
    obtain rfl : layout w m = bytes := (Prod.ext_iff.mp (Except.ok.inj same)).1
    exact deserialize_fails sized rest m done

def twoByTwo : SoftmaxModel UInt32 := ⟨2, 2, [[1, 2], [3, 4]]⟩

theorem twoByTwo_sized : Sized twoByTwo where
  rows := rfl
  columns := by decide
  few := by decide
  short := by decide
  fits := by decide

theorem two_by_two :
    (Stores .littleEndian twoByTwo (layout .littleEndian twoByTwo) ∧
      ((∃ rest, loadInto .littleEndian ⟨3, 1, [[0, 0, 0]]⟩ (layout .littleEndian twoByTwo) = .ok (twoByTwo, rest)) ↔
        (1 : UInt64) = 2 ∧ (3 : UInt64) = 2) ∧
      ∀ rest m', deserialize .littleEndian (layout .littleEndian twoByTwo) ≠ .ok (m', rest)) ∧
    ∀ bytes, ¬ RoundTrips .littleEndian twoByTwo ⟨3, 1, [[0, 0, 0]]⟩ bytes :=
  softmax_codec .littleEndian twoByTwo ⟨3, 1, [[0, 0, 0]]⟩ twoByTwo_sized

theorem header_skipped_twice :
    deserialize .littleEndian (layout .littleEndian (⟨2, 2, [[0, 0], [0, 0]]⟩ : SoftmaxModel UInt32)) =
      .error .undefined ∧
    ¬ ∃ rest, deserialize .littleEndian (layout .littleEndian (⟨2, 2, [[0, 0], [0, 0]]⟩ : SoftmaxModel UInt32)) =
      .ok (⟨2, 2, [[0, 0], [0, 0]]⟩, rest) := by
  have undefined : deserialize .littleEndian (layout .littleEndian (⟨2, 2, [[0, 0], [0, 0]]⟩ : SoftmaxModel UInt32)) =
      .error .undefined := rfl
  refine ⟨undefined, ?_⟩
  rintro ⟨rest, done⟩
  rw [undefined] at done
  cases done

end Agreement

end SoftmaxModel
end Softmax

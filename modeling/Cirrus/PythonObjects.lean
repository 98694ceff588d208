import Cirrus.SparseObject

/-!
`serialize_data`, which packs rows into an object for S3, and the reader of whole
objects on the other side. A float is its bits.
-/
namespace PythonObjects
open Gradients SparseLR SparseObject Decoder

/-- Python's floats, which are doubles, and the floats that the native format of `struct` makes of them. One that
is too large for a float becomes infinite. -/
structure Narrowing (V : Type) where
  widen : UInt32 → V
  narrow : V → UInt32
  narrow_widen : ∀ x, narrow (widen x) = x

/-- `struct.pack("i", n)` -/
def packInt (n : Int) : Except Fault (List UInt8) :=
  if -2 ^ 31 ≤ n ∧ n < 2 ^ 31 then .ok (Codec.digits 4 (n % 2 ^ 32).toNat)
  else .error (.exception "struct.error: 'i' format requires -2147483648 <= number <= 2147483647")

variable {V : Type}

/-- `struct.pack("f", v)` -/
def packFloat (c : Narrowing V) (v : V) : List UInt8 := Codec.digits 4 (c.narrow v).toNat

def defaultLabel : List UInt8 := [0, 0, 0, 0]

abbrev PyRow (V : Type) := List (Int × V)

def packEntries (c : Narrowing V) : PyRow V → Except Fault (List UInt8)
  | [] => .ok []
  | (idx, val) :: rest => do
    let idx ← packInt idx
    let rest ← packEntries c rest
    .ok (idx ++ (packFloat c val ++ rest))

/-- `labels[idx]`, unless there are no labels -/
def labelOf (labels : Option (List (List UInt8))) (idx : Nat) : Except Fault (List UInt8) :=
  match labels with
  | none => .ok defaultLabel
  | some labels =>
    match labels[idx]? with
    | some label => .ok label
    | none => .error (.exception "IndexError: list index out of range")

def packLines (c : Narrowing V) (labels : Option (List (List UInt8))) : Nat → List (PyRow V) → Except Fault (List (List UInt8))
  | _, [] => .ok []
  | idx, row :: rest => do
    let label ← labelOf labels idx
    let count ← packInt row.length
    let entries ← packEntries c row
    let lines ← packLines c labels (idx + 1) rest
    .ok ((label ++ (count ++ entries)) :: lines)

def serializeData (c : Narrowing V) (data : List (PyRow V)) (labels : Option (List (List UInt8))) :
    Except Fault (List UInt8) := do
  let lines ← packLines c labels 0 data
  let size ← packInt ((lines.map List.length).sum + 8)
  let count ← packInt lines.length
  .ok (size ++ (count ++ lines.flatten))

section Agreement

/-- The machine of the readers, which is also that of the writers. -/
abbrev wire : Wire UInt8 UInt32 := Wire.littleEndian

theorem ofInt_toUInt32 (n : Int) : (Int32.ofInt n).toUInt32.toNat = (n % 2 ^ 32).toNat := by
  show (BitVec.ofInt 32 n).toNat = _
  rw [BitVec.toNat_ofInt]
  rfl

theorem packInt_fits {n : Int} (low : -2 ^ 31 ≤ n) (high : n < 2 ^ 31) : packInt n = .ok (wire.int.put (Int32.ofInt n)) := by
  have bytes : wire.int.put (Int32.ofInt n) = Codec.digits 4 (Int32.ofInt n).toUInt32.toNat := rfl
  rw [bytes, ofInt_toUInt32]
  exact if_pos ⟨low, high⟩

theorem packInt_nat {n : Nat} (small : n < 2 ^ 31) : packInt n = .ok (wire.int.put (toInt n)) := by
  have same : Int32.ofInt n = toInt n := rfl
  rw [packInt_fits (by omega) (by omega), same]

theorem packInt_ok {n : Int} {bytes : List UInt8} (ok : packInt n = .ok bytes) : -2 ^ 31 ≤ n ∧ n < 2 ^ 31 := by
  unfold packInt at ok
  split at ok
  next fits => exact fits
  next => cases ok

def narrowRow (c : Narrowing V) : PyRow V → Option (Row UInt32)
  | [] => some []
  | (idx, val) :: rest =>
    match narrowRow c rest with
    | some row => if -2 ^ 31 ≤ idx ∧ idx < 2 ^ 31 then some ((Int32.ofInt idx, c.narrow val) :: row) else none
    | none => none

theorem packEntries_iff (c : Narrowing V) (row : PyRow V) (bytes : List UInt8) :
    packEntries c row = .ok bytes ↔ ∃ narrowed, narrowRow c row = some narrowed ∧ bytes = narrowed.flatMap (putEntry wire) := by
  induction row generalizing bytes with
  | nil =>
    constructor
    · intro packed
      exact ⟨[], rfl, (Except.ok.inj packed).symm⟩
    · rintro ⟨narrowed, same, bytes_eq⟩
      obtain rfl := Option.some.inj same
      rw [bytes_eq]
      rfl
  | cons e rest ih =>
    obtain ⟨idx, val⟩ := e
    constructor
    · intro packed
      obtain ⟨i, index, packed⟩ := Loops.ok_of_bind packed
      obtain ⟨others, last, packed⟩ := Loops.ok_of_bind packed
      obtain rfl := Except.ok.inj packed
      obtain ⟨narrowed, same, rfl⟩ := (ih others).mp last
      obtain ⟨low, high⟩ := packInt_ok index
      rw [packInt_fits low high] at index
      refine ⟨(Int32.ofInt idx, c.narrow val) :: narrowed, ?_, ?_⟩
      · simp only [narrowRow, same]
        exact if_pos ⟨low, high⟩
      · rw [← Except.ok.inj index, List.flatMap_cons, putEntry, List.append_assoc]
        rfl
    · rintro ⟨narrowed, same, bytes_eq⟩
      unfold narrowRow at same
      split at same
      next row others =>
        split at same
        next fits =>
          obtain rfl := Option.some.inj same
          have packed := (ih (row.flatMap (putEntry wire))).mpr ⟨row, others, rfl⟩
          unfold packEntries
          rw [packInt_fits fits.1 fits.2, packed, bytes_eq, List.flatMap_cons, putEntry, List.append_assoc]
          rfl
        next => cases same
      next => cases same

theorem narrowRow_length {c : Narrowing V} {row : PyRow V} {narrowed : Row UInt32} (same : narrowRow c row = some narrowed) :
    narrowed.length = row.length := by
  induction row generalizing narrowed with
  | nil =>
    obtain rfl := Option.some.inj same
    rfl
  | cons e rest ih =>
    unfold narrowRow at same
    split at same
    next others last =>
      split at same
      next =>
        obtain rfl := Option.some.inj same
        rw [List.length_cons, List.length_cons, ih last]
      next => cases same
    next => cases same

def sampled (labels : List UInt32) (rows : List (Row UInt32)) : List (Option UInt32 × Row UInt32) :=
  (labels.zip rows).map fun e => (some e.1, e.2)

def Narrowed (c : Narrowing V) (rows : List (PyRow V)) (narrowed : List (Row UInt32)) : Prop :=
  List.Forall₂ (fun row row' => narrowRow c row = some row' ∧ row.length < 2 ^ 31) rows narrowed

theorem packLines_iff (c : Narrowing V) (labels : Option (List (List UInt8))) (rows : List (PyRow V)) (bits : List UInt32)
    (idx : Nat) (size : bits.length = rows.length)
    (given : ∀ i l, bits[i]? = some l → labelOf labels (idx + i) = .ok (wire.feature.put l)) (lines : List (List UInt8)) :
    packLines c labels idx rows = .ok lines ↔
      ∃ narrowed, Narrowed c rows narrowed ∧ lines = (sampled bits narrowed).map (putSample wire) := by
  induction rows generalizing bits idx lines with
  | nil =>
    obtain rfl := List.length_eq_zero_iff.mp size
    constructor
    · intro packed
      exact ⟨[], .nil, (Except.ok.inj packed).symm⟩
    · intro ⟨narrowed, each, same⟩
      cases each
      rw [same]
      rfl
  | cons row rest ih =>
    obtain ⟨l, bits, rfl⟩ := List.exists_cons_of_length_eq_add_one size
    have label : labelOf labels idx = .ok (wire.feature.put l) := given 0 l rfl
    have others := ih bits (idx + 1) (Nat.succ.inj size) (fun i l there => by
      rw [Nat.add_assoc, Nat.add_comm 1]
      exact given (i + 1) l there)
    constructor
    · intro packed
      unfold packLines at packed
      rw [Loops.bind_of_ok label] at packed
      obtain ⟨count, counted, packed⟩ := Loops.ok_of_bind packed
      obtain ⟨entries, values, packed⟩ := Loops.ok_of_bind packed
      obtain ⟨tail, after, packed⟩ := Loops.ok_of_bind packed
      obtain rfl := Except.ok.inj packed
      obtain ⟨narrowed, same, rfl⟩ := (packEntries_iff c row entries).mp values
      obtain ⟨rows', each, rfl⟩ := (others tail).mp after
      obtain ⟨_, small⟩ := packInt_ok counted
      rw [packInt_nat (by omega)] at counted
      refine ⟨narrowed :: rows', .cons ⟨same, by omega⟩ each, ?_⟩
      rw [← Except.ok.inj counted, ← narrowRow_length same]
      rfl
    · intro ⟨narrowed, each, lines_eq⟩
      obtain ⟨row', rows', ⟨same, small⟩, tail, rfl⟩ := List.forall₂_cons_left_iff.mp each
      have packed := (others _).mpr ⟨rows', tail, rfl⟩
      have values := (packEntries_iff c row _).mpr ⟨row', same, rfl⟩
      unfold packLines
      rw [label, packInt_nat small, values, packed, lines_eq, ← narrowRow_length same]
      rfl

/-- What `serialize_data` makes of rows, when it makes anything of them. -/
theorem serializeData_iff (c : Narrowing V) (labels : Option (List (List UInt8))) (rows : List (PyRow V)) (bits : List UInt32)
    (size : bits.length = rows.length) (given : ∀ i l, bits[i]? = some l → labelOf labels i = .ok (wire.feature.put l))
    (object : List UInt8) :
    serializeData c rows labels = .ok object ↔ ∃ narrowed, Narrowed c rows narrowed ∧
      ((sampled bits narrowed).flatMap (putSample wire)).length + 8 < 2 ^ 31 ∧ rows.length < 2 ^ 31 ∧
      object = wire.int.put (toInt (((sampled bits narrowed).flatMap (putSample wire)).length + 8)) ++
        (wire.int.put (toInt rows.length) ++ (sampled bits narrowed).flatMap (putSample wire)) := by
  have lines_iff := packLines_iff c labels rows bits 0 size (fun i l there => by rw [Nat.zero_add]; exact given i l there)
  have total (stored : List (Option UInt32 × Row UInt32)) : ((stored.map (putSample wire)).map List.length).sum =
      (stored.flatMap (putSample wire)).length := by
    rw [List.flatMap, List.length_flatten]
  have count {narrowed : List (Row UInt32)} (each : Narrowed c rows narrowed) :
      (sampled bits narrowed).length = rows.length := by
    simp [sampled, size, each.length_eq]
  constructor
  · intro packed
    obtain ⟨lines, joined, packed⟩ := Loops.ok_of_bind packed
    obtain ⟨narrowed, each, rfl⟩ := (lines_iff lines).mp joined
    obtain ⟨whole, sized, packed⟩ := Loops.ok_of_bind packed
    obtain ⟨number, counted, packed⟩ := Loops.ok_of_bind packed
    rw [total] at sized
    rw [List.length_map, count each] at counted
    obtain ⟨_, fits⟩ := packInt_ok sized
    obtain ⟨_, few⟩ := packInt_ok counted
    refine ⟨narrowed, each, by omega, by omega, ?_⟩
    have sized' := packInt_nat (n := ((sampled bits narrowed).flatMap (putSample wire)).length + 8) (by omega)
    rw [Int.natCast_add, Int.cast_ofNat_Int, sized] at sized'
    rw [packInt_nat (by omega)] at counted
    rw [← Except.ok.inj packed, Except.ok.inj sized', ← Except.ok.inj counted, List.flatMap]
  · intro ⟨narrowed, each, fits, few, object_eq⟩
    have joined := (lines_iff _).mpr ⟨narrowed, each, rfl⟩
    have sized := packInt_nat fits
    rw [Int.natCast_add, Int.cast_ofNat_Int] at sized
    unfold serializeData
    rw [Loops.bind_of_ok joined, total, Loops.bind_of_ok sized, List.length_map, count each,
      Loops.bind_of_ok (packInt_nat few), object_eq]
    rfl

end Agreement

section Decoding
variable (c : Narrowing V)

def pyRows (ds : SparseDataset UInt32) : List (PyRow V) := ds.data.map fun row => row.map fun e => (e.1.toInt, c.widen e.2)

def packedSize (rows : List (PyRow V)) : Nat := (rows.map fun row => 8 + 8 * row.length).sum + 8

def Exact (row : PyRow V) : Prop := ∀ e ∈ row, (-2 ^ 31 ≤ e.1 ∧ e.1 < 2 ^ 31) ∧ ∃ x, e.2 = c.widen x

variable {c}

theorem narrowRow_exact {row : PyRow V} (exact : Exact c row) :
    ∃ narrowed, narrowRow c row = some narrowed ∧ narrowed.map (fun e => (e.1.toInt, c.widen e.2)) = row := by
  induction row with
  | nil => exact ⟨[], rfl, rfl⟩
  | cons e rest ih =>
    obtain ⟨idx, val⟩ := e
    unfold Exact at exact
    rw [List.forall_mem_cons] at exact
    obtain ⟨⟨fits, x, value⟩, others⟩ := exact
    obtain ⟨narrowed, same, back⟩ := ih others
    simp only at fits value
    refine ⟨(Int32.ofInt idx, x) :: narrowed, ?_, ?_⟩
    · unfold narrowRow
      rw [value, c.narrow_widen, same]
      exact if_pos fits
    · rw [List.map_cons, back, Int32.toInt_ofInt_of_le fits.1 fits.2, value]

theorem narrowed_exact {rows : List (PyRow V)} (exact : ∀ row ∈ rows, Exact c row) (short : ∀ row ∈ rows, row.length < 2 ^ 31) :
    ∃ narrowed, Narrowed c rows narrowed ∧ narrowed.map (·.map fun e => (e.1.toInt, c.widen e.2)) = rows := by
  induction rows with
  | nil => exact ⟨[], .nil, rfl⟩
  | cons row rest ih =>
    rw [List.forall_mem_cons] at exact short
    obtain ⟨row', same, back⟩ := narrowRow_exact exact.1
    obtain ⟨rows', each, others⟩ := ih exact.2 short.2
    exact ⟨row' :: rows', .cons ⟨same, short.1⟩ each, by rw [List.map_cons, back, others]⟩

theorem putSample_length (l : UInt32) (row : Row UInt32) : (putSample wire (some l, row)).length = 8 + 8 * row.length := by
  simp only [putSample, Option.elim_some, List.length_append, Codec.put_length, putEntries_length]
  omega

theorem sampled_size {rows : List (PyRow V)} {narrowed : List (Row UInt32)} (each : Narrowed c rows narrowed)
    {bits : List UInt32} (size : bits.length = rows.length) :
    ((sampled bits narrowed).flatMap (putSample wire)).length + 8 = packedSize rows := by
  unfold packedSize
  induction each generalizing bits with
  | nil => simp [sampled]
  | @cons row row' rows rows' same each ih =>
    obtain ⟨l, bits, rfl⟩ := List.exists_cons_of_length_eq_add_one size
    have others := ih (Nat.succ.inj size)
    have first := putSample_length l row'
    rw [narrowRow_length same.1] at first
    have split : sampled (l :: bits) (row' :: rows') = (some l, row') :: sampled bits rows' := rfl
    rw [split, List.flatMap_cons, List.length_append, first, List.map_cons, List.sum_cons]
    omega

theorem dataset_sampled {bits : List UInt32} {rows : List (Row UInt32)} (size : bits.length = rows.length) :
    dataset (sampled bits rows) = ⟨rows, bits⟩ := by
  unfold dataset sampled
  rw [List.map_map, List.filterMap_map]
  congr 1
  · exact List.map_snd_zip (Nat.le_of_eq size.symm)
  · simpa [Function.comp_def] using List.map_fst_zip (Nat.le_of_eq size)

theorem narrowed_source {rows : List (PyRow V)} {narrowed : List (Row UInt32)} (each : Narrowed c rows narrowed)
    {row' : Row UInt32} (member : row' ∈ narrowed) : ∃ row ∈ rows, narrowRow c row = some row' := by
  induction each with
  | nil => cases member
  | @cons row _ rows _ same _ ih =>
    rcases List.mem_cons.mp member with rfl | later
    · exact ⟨row, List.mem_cons_self, same.1⟩
    · obtain ⟨source, there, narrow⟩ := ih later
      exact ⟨source, List.mem_cons_of_mem row there, narrow⟩

theorem narrowed_target {rows : List (PyRow V)} {narrowed : List (Row UInt32)} (each : Narrowed c rows narrowed)
    {row : PyRow V} (member : row ∈ rows) : ∃ row' ∈ narrowed, narrowRow c row = some row' := by
  induction each with
  | nil => cases member
  | @cons row row' rows rows' same _ ih =>
    rcases List.mem_cons.mp member with rfl | later
    · exact ⟨row', List.mem_cons_self, same.1⟩
    · obtain ⟨target, there, narrow⟩ := ih later
      exact ⟨target, List.mem_cons_of_mem row' there, narrow⟩

theorem narrowed_small {rows : List (PyRow V)} {narrowed : List (Row UInt32)} (each : Narrowed c rows narrowed) :
    ∀ row ∈ rows, row.length < 2 ^ 31 := by
  induction each with
  | nil => exact nofun
  | cons same _ ih => exact List.forall_mem_cons.mpr ⟨same.2, ih⟩

theorem labels_bits {ls : List (List UInt8)} (binary : ∀ l ∈ ls, l = wire.feature.put 0 ∨ l = wire.feature.put 0x3f800000) :
    ∃ bits : List UInt32, bits.map wire.feature.put = ls ∧ ∀ l ∈ bits, l = 0 ∨ l = 0x3f800000 := by
  induction ls with
  | nil => exact ⟨[], rfl, nofun⟩
  | cons l rest ih =>
    rw [List.forall_mem_cons] at binary
    obtain ⟨bits, same, others⟩ := ih binary.2
    rcases binary.1 with zero | one
    · exact ⟨0 :: bits, by rw [List.map_cons, same, zero], List.forall_mem_cons.mpr ⟨.inl rfl, others⟩⟩
    · exact ⟨0x3f800000 :: bits, by rw [List.map_cons, same, one], List.forall_mem_cons.mpr ⟨.inr rfl, others⟩⟩

theorem given_bits {labels : Option (List (List UInt8))} {n : Nat} {bits : List UInt32}
    (same : bits.map wire.feature.put = labels.getD (List.replicate n defaultLabel)) (i : Nat) (l : UInt32)
    (there : bits[i]? = some l) : labelOf labels i = .ok (wire.feature.put l) := by
  have placed : (bits.map wire.feature.put)[i]? = some (wire.feature.put l) := by rw [List.getElem?_map, there]; rfl
  rw [same] at placed
  unfold labelOf
  cases labels with
  | none =>
    rw [Option.getD_none] at placed
    have repeated := List.eq_of_mem_replicate (List.mem_of_getElem? placed)
    rw [repeated]
  | some ls =>
    rw [Option.getD_some] at placed
    simp only [placed]

theorem isLabel_bits {l : UInt32} (binary : l = 0 ∨ l = 0x3f800000) : FeatureTests.isLabel l = true := by
  rcases binary with rfl | rfl <;> decide

theorem fromS3_sampled {rows : List (PyRow V)} {narrowed : List (Row UInt32)} (each : Narrowed c rows narrowed)
    {bits : List UInt32} (size : bits.length = rows.length) (some_row : 0 < rows.length) (few : rows.length < 1000000)
    (short : ∀ row ∈ rows, row.length ≤ 1000000) (binary : ∀ l ∈ bits, l = 0 ∨ l = 0x3f800000) (header : Int32) :
    Decodes (fromS3 wire true) (wire.int.put header ++ (wire.int.put (toInt rows.length) ++
      (sampled bits narrowed).flatMap (putSample wire))) ⟨narrowed, bits⟩ := by
  have lengths := each.length_eq
  have count : (sampled bits narrowed).length = rows.length := by simp [sampled, size, lengths]
  have samples : ∀ s ∈ sampled bits narrowed,
      s.1.isSome = true ∧ (∀ l ∈ s.1, FeatureTests.isLabel l) ∧ s.2.length ≤ 1000000 := by
    intro s member
    obtain ⟨⟨l, row'⟩, both, rfl⟩ := List.mem_map.mp member
    obtain ⟨row, there, same⟩ := narrowed_source each (List.of_mem_zip both).2
    refine ⟨rfl, ?_, ?_⟩
    · intro l' same
      obtain rfl := Option.some.inj same
      exact isLabel_bits (binary l (List.of_mem_zip both).1)
    · rw [narrowRow_length same]
      exact short row there
  have decoded := fromS3_decodes (w := wire) header (by omega) (by omega) samples
  rwa [count, dataset_sampled (size.trans lengths)] at decoded

/-- Rows that keep their values, and labels that are 0 or 1, are read as they were. -/
theorem serialized_decodes (c : Narrowing V) (rows : List (PyRow V)) (labels : Option (List (List UInt8)))
    (some_row : 1 ≤ rows.length) (few : rows.length ≤ 999999) (short : ∀ row ∈ rows, row.length < 1000000)
    (exact : ∀ row ∈ rows, Exact c row)
    (labelled : ∀ ls ∈ labels, ls.length = rows.length ∧
      ∀ l ∈ ls, l = wire.feature.put 0 ∨ l = wire.feature.put 0x3f800000)
    (total : packedSize rows < 2 ^ 31) :
    ∃ object ds, serializeData c rows labels = .ok object ∧ Decodes (fromS3 wire true) object ds ∧
      pyRows c ds = rows ∧ ds.labels.map wire.feature.put = labels.getD (List.replicate rows.length defaultLabel) ∧
      ∃ header rest, wire.int.load object = .ok (header, rest) ∧ header.toInt = object.length := by
  have binary : (labels.getD (List.replicate rows.length defaultLabel)).length = rows.length ∧
      ∀ l ∈ labels.getD (List.replicate rows.length defaultLabel), l = wire.feature.put 0 ∨ l = wire.feature.put 0x3f800000 := by
    cases labels with
    | none => exact ⟨List.length_replicate, fun l member => .inl (List.eq_of_mem_replicate member)⟩
    | some ls => exact labelled ls rfl
  obtain ⟨bits, same, tested⟩ := labels_bits binary.2
  have size : bits.length = rows.length := by rw [← binary.1, ← same, List.length_map]
  obtain ⟨narrowed, each, back⟩ := narrowed_exact exact fun row member => Nat.lt_trans (short row member) (by decide)
  have fits := sampled_size each size
  have packed := (serializeData_iff c labels rows bits size (given_bits same) _).mpr
    ⟨narrowed, each, by omega, by omega, rfl⟩
  refine ⟨_, ⟨narrowed, bits⟩, packed, ?_, back, same, ?_⟩
  · exact fromS3_sampled each size (by omega) (by omega) (fun row member => Nat.le_of_lt (short row member)) tested _
  · refine ⟨_, _, wire.int.load_put _ _, ?_⟩
    rw [LRSparseGradient.toInt_toInt (by omega)]
    simp only [List.length_append, Codec.put_length]
    omega

def sameFloats : Narrowing UInt32 where
  widen x := x
  narrow x := x
  narrow_widen _ := rfl

theorem serialized_decodes_two : ∃ object ds,
    serializeData sameFloats [[], [(3, 0x3f800000)]] (some [[0, 0, 128, 63], [0, 0, 0, 0]]) = .ok object ∧
      Decodes (fromS3 wire true) object ds ∧ pyRows sameFloats ds = [[], [(3, 0x3f800000)]] ∧
      ds.labels.map wire.feature.put = [[0, 0, 128, 63], [0, 0, 0, 0]] ∧
      ∃ header rest, wire.int.load object = .ok (header, rest) ∧ header.toInt = object.length :=
  serialized_decodes sameFloats [[], [(3, 0x3f800000)]] (some [[0, 0, 128, 63], [0, 0, 0, 0]]) (by decide) (by decide)
    (by decide) (by simp [Exact, sameFloats]) (by
      intro ls same
      obtain rfl := Option.some.inj same
      decide) (by decide)

end Decoding

end PythonObjects

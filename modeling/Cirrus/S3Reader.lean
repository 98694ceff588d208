import Cirrus.PythonObjects

/-!
`get_data_from_s3`, which reads back the rows that `serialize_data` packs. It goes
through the object four bytes at a time and closes a row where it has just seen
the last of its values, which a row without values does not have.
-/
namespace PythonObjects
open Gradients SparseLR SparseObject
variable {V : Type}

/-- A row as the reader builds it. An index is `None` until one was read. -/
abbrev ReadRow (V : Type) := List (Option Int × V)

structure Reading (V : Type) where
  data : List (ReadRow V) := []
  labels : List (List UInt8) := []
  currentLine : ReadRow V := []
  idx : Option Int := none
  labelBytes : Option (List UInt8) := none
  numValues : Option Int := none
  seen : Nat := 0

/-- `struct.unpack("i", bytes)[0]` -/
def unpackInt (bytes : List UInt8) : Except Fault Int :=
  if bytes.length = 4 then .ok (wire.int.get bytes).toInt
  else .error (.exception "struct.error: unpack requires a buffer of 4 bytes")

/-- `struct.unpack("f", bytes)[0]` -/
def unpackFloat (c : Narrowing V) (bytes : List UInt8) : Except Fault V :=
  if bytes.length = 4 then .ok (c.widen (wire.feature.get bytes))
  else .error (.exception "struct.error: unpack requires a buffer of 4 bytes")

def takePart (c : Narrowing V) (s : Reading V) (bytes : List UInt8) : Except Fault (Reading V) :=
  if s.seen % 2 = 0 then do
    let idx ← unpackInt bytes
    .ok { s with idx := some idx }
  else do
    let value ← unpackFloat c bytes
    .ok { s with currentLine := s.currentLine ++ [(s.idx, value)] }

/-- `if seen == num_values * 2` -/
def finishLine (numValues : Int) (s : Reading V) : Reading V :=
  if s.seen = numValues * 2 then
    { s with data := s.data ++ [s.currentLine], currentLine := [], labelBytes := none, numValues := none, seen := 0 }
  else s

/-- A turn of the loop, which gets four bytes, or what is left of the object. -/
def takeBytes (c : Narrowing V) (keepLabel : Bool) (s : Reading V) (bytes : List UInt8) : Except Fault (Reading V) :=
  match s.labelBytes, s.numValues with
  | none, _ =>
    .ok { s with labelBytes := some bytes, labels := if keepLabel then s.labels ++ [bytes] else s.labels }
  | some _, none => do
    let numValues ← unpackInt bytes
    .ok { s with numValues := some numValues }
  | some _, some numValues => do
    let s ← takePart c s bytes
    .ok (finishLine numValues { s with seen := s.seen + 1 })

def getDataFromS3 (c : Narrowing V) (keepLabel : Bool) (bData : List UInt8) :
    Except Fault (List (ReadRow V) × Option (List (List UInt8))) := do
  let s ← (List.range' 8 ((bData.length - 8 + 3) / 4) 4).foldlM
    (fun s i => takeBytes c keepLabel s ((bData.drop i).take 4)) {}
  .ok (s.data, if keepLabel then some s.labels else none)

section Words

theorem words_joined {B : Type} {k : Nat} {words : List (List B)} (sized : ∀ word ∈ words, word.length = k)
    (front : List B) :
    (List.range' front.length words.length k).map (fun i => ((front ++ words.flatten).drop i).take k) = words := by
  induction words generalizing front with
  | nil => rfl
  | cons word rest ih =>
    rw [List.forall_mem_cons] at sized
    have first : ((front ++ (word :: rest).flatten).drop front.length).take k = word := by
      rw [List.drop_left, List.flatten_cons]
      exact List.take_left' sized.1
    have later := ih sized.2 (front ++ word)
    rw [List.length_append, sized.1, List.append_assoc, ← List.flatten_cons] at later
    rw [List.length_cons, List.range'_succ, List.map_cons, first, later]

theorem words_length {B : Type} {k : Nat} {words : List (List B)} (sized : ∀ word ∈ words, word.length = k) :
    words.flatten.length = k * words.length := by
  induction words with
  | nil => rfl
  | cons word rest ih =>
    rw [List.forall_mem_cons] at sized
    rw [List.flatten_cons, List.length_append, ih sized.2, sized.1, List.length_cons, Nat.mul_succ, Nat.add_comm]

def entryWords (row : Row UInt32) : List (List UInt8) :=
  row.flatMap fun e => [wire.int.put e.1, wire.feature.put e.2]

def lineWords (l : UInt32) (row : Row UInt32) : List (List UInt8) :=
  wire.feature.put l :: wire.int.put (toInt row.length) :: entryWords row

theorem lineWords_flatten (l : UInt32) (row : Row UInt32) : (lineWords l row).flatten = putSample wire (some l, row) := by
  have entries : (entryWords row).flatten = row.flatMap (putEntry wire) := by
    induction row with
    | nil => rfl
    | cons e rest ih =>
      have split : entryWords (e :: rest) = wire.int.put e.1 :: wire.feature.put e.2 :: entryWords rest := rfl
      rw [split, List.flatten_cons, List.flatten_cons, ih, List.flatMap_cons, putEntry, List.append_assoc]
  rw [lineWords, List.flatten_cons, List.flatten_cons, entries]
  rfl

theorem lineWords_sized (l : UInt32) (row : Row UInt32) : ∀ word ∈ lineWords l row, word.length = 4 := by
  intro word member
  rcases List.mem_cons.mp member with rfl | member
  · exact Codec.put_length _ _
  · rcases List.mem_cons.mp member with rfl | member
    · exact Codec.put_length _ _
    · obtain ⟨e, _, there⟩ := List.mem_flatMap.mp member
      rcases List.mem_pair.mp there with rfl | rfl <;> exact Codec.put_length _ _

end Words

section Turns
variable (c : Narrowing V)

def between (data : List (ReadRow V)) (labels : List (List UInt8)) (idx : Option Int) : Reading V :=
  { data := data, labels := labels, idx := idx }

def inLine (data : List (ReadRow V)) (labels : List (List UInt8)) (l : List UInt8) (n : Nat) (line : ReadRow V)
    (idx : Option Int) : Reading V :=
  { data := data, labels := labels, currentLine := line, idx := idx, labelBytes := some l, numValues := some n
    seen := 2 * line.length }

def readRow (row : Row UInt32) : ReadRow V := row.map fun e => (some e.1.toInt, c.widen e.2)

variable {c}

theorem unpackInt_put (n : Int32) : unpackInt (wire.int.put n) = .ok n.toInt := by
  rw [unpackInt, if_pos (Codec.put_length _ _), Codec.get_put]

theorem unpackFloat_put (x : UInt32) : unpackFloat c (wire.feature.put x) = .ok (c.widen x) := by
  rw [unpackFloat, if_pos (Codec.put_length _ _), Codec.get_put]

theorem takeBytes_start (data : List (ReadRow V)) (labels : List (List UInt8)) (idx : Option Int) (l : List UInt8)
    {n : Nat} (small : n < 2 ^ 31) :
    [l, wire.int.put (toInt n)].foldlM (takeBytes c true) (between data labels idx) =
      .ok (inLine data (labels ++ [l]) l n [] idx) := by
  have count : unpackInt (wire.int.put (toInt n)) = .ok (n : Int) := by
    rw [unpackInt_put, LRSparseGradient.toInt_toInt small]
  simp only [List.foldlM_cons, takeBytes, between, count]
  rfl

theorem takeBytes_index (data : List (ReadRow V)) (labels : List (List UInt8)) (l : List UInt8) (n : Nat)
    (line : ReadRow V) (idx : Option Int) (index : Int32) :
    takeBytes c true (inLine data labels l n line idx) (wire.int.put index) =
      .ok { inLine data labels l n line (some index.toInt) with seen := 2 * line.length + 1 } := by
  have even : 2 * line.length % 2 = 0 := Nat.mul_mod_right 2 _
  have unfinished : ¬ ((2 * line.length + 1 : Nat) : Int) = (n : Int) * 2 := by omega
  simp only [takeBytes, inLine, takePart, if_pos even, unpackInt_put, finishLine, Loops.bind_of_ok rfl, if_neg unfinished]

theorem takeBytes_value (data : List (ReadRow V)) (labels : List (List UInt8)) (l : List UInt8) (n : Nat)
    (line : ReadRow V) (idx : Option Int) (x : UInt32) :
    takeBytes c true { inLine data labels l n line idx with seen := 2 * line.length + 1 } (wire.feature.put x) =
      .ok (if line.length + 1 = n then between (data ++ [line ++ [(idx, c.widen x)]]) labels idx
        else inLine data labels l n (line ++ [(idx, c.widen x)]) idx) := by
  have odd : ¬ (2 * line.length + 1) % 2 = 0 := by omega
  have finished : ((2 * line.length + 1 + 1 : Nat) : Int) = (n : Int) * 2 ↔ line.length + 1 = n := by omega
  simp only [takeBytes, inLine, takePart, if_neg odd, unpackFloat_put, finishLine, Loops.bind_of_ok rfl, finished]
  split
  · rfl
  · simp only [List.length_append, List.length_singleton]
    rfl

theorem takeBytes_rest (data : List (ReadRow V)) (labels : List (List UInt8)) (l : List UInt8) (row : Row UInt32)
    (line : ReadRow V) (idx : Option Int) (nonempty : row ≠ []) :
    ∃ idx', (entryWords row).foldlM (takeBytes c true) (inLine data labels l (line.length + row.length) line idx) =
      .ok (between (data ++ [line ++ readRow c row]) labels idx') := by
  induction row generalizing line idx with
  | nil => exact absurd rfl nonempty
  | cons e rest ih =>
    have split : entryWords (e :: rest) = wire.int.put e.1 :: wire.feature.put e.2 :: entryWords rest := rfl
    rw [split, List.foldlM_cons, Loops.bind_of_ok (takeBytes_index ..), List.foldlM_cons,
      Loops.bind_of_ok (takeBytes_value ..)]
    cases rest with
    | nil =>
      refine ⟨some e.1.toInt, ?_⟩
      rw [List.length_singleton, if_pos rfl]
      rfl
    | cons e' rest =>
      obtain ⟨idx', done⟩ := ih (line ++ [(some e.1.toInt, c.widen e.2)]) (some e.1.toInt) (List.cons_ne_nil _ _)
      refine ⟨idx', ?_⟩
      rw [if_neg (by rw [List.length_cons, List.length_cons]; omega)]
      rw [List.length_append, List.length_singleton, Nat.add_assoc, Nat.add_comm 1, ← List.length_cons (a := e),
        List.append_assoc] at done
      exact done

theorem takeBytes_lines (samples : List (UInt32 × Row UInt32)) (nonempty : ∀ s ∈ samples, s.2 ≠ [])
    (short : ∀ s ∈ samples, s.2.length < 2 ^ 31) (data : List (ReadRow V)) (labels : List (List UInt8)) (idx : Option Int) :
    ∃ idx', (samples.flatMap fun s => lineWords s.1 s.2).foldlM (takeBytes c true) (between data labels idx) =
      .ok (between (data ++ samples.map fun s => readRow c s.2) (labels ++ samples.map fun s => wire.feature.put s.1)
        idx') := by
  induction samples generalizing data labels idx with
  | nil => exact ⟨idx, by simp; rfl⟩
  | cons s rest ih =>
    rw [List.forall_mem_cons] at nonempty short
    have words : lineWords s.1 s.2 = [wire.feature.put s.1, wire.int.put (toInt s.2.length)] ++ entryWords s.2 := rfl
    obtain ⟨idx', line⟩ := takeBytes_rest (c := c) data (labels ++ [wire.feature.put s.1]) (wire.feature.put s.1) s.2 []
      idx nonempty.1
    rw [List.length_nil, Nat.zero_add] at line
    obtain ⟨last, done⟩ := ih nonempty.2 short.2 (data ++ [readRow c s.2]) (labels ++ [wire.feature.put s.1]) idx'
    refine ⟨last, ?_⟩
    rw [List.flatMap_cons, List.foldlM_append, words, List.foldlM_append,
      Loops.bind_of_ok (takeBytes_start data labels idx _ short.1), Loops.bind_of_ok line, List.nil_append, done]
    simp only [List.map_cons, List.append_assoc, List.singleton_append]

theorem takeBytes_stuck {data : List (ReadRow V)} {words : List (List UInt8)} {s t : Reading V}
    (stuck : s.labelBytes.isSome ∧ s.numValues = some 0 ∧ s.data = data)
    (done : words.foldlM (takeBytes c true) s = .ok t) : t.data = data := by
  have ends := Loops.foldlM_ends
    (P := fun _ (s : Reading V) => s.labelBytes.isSome ∧ s.numValues = some 0 ∧ s.data = data) ?_ stuck done
  · exact ends.2.2
  intro _ word _ s t ⟨labelled, count, same⟩ one
  obtain ⟨l, label⟩ := Option.isSome_iff_exists.mp labelled
  simp only [takeBytes, label, count] at one
  obtain ⟨mid, part, one⟩ := Loops.ok_of_bind one
  have unfinished : ¬ ((mid.seen + 1 : Nat) : Int) = 0 * 2 := by omega
  have kept : mid.labelBytes = s.labelBytes ∧ mid.numValues = s.numValues ∧ mid.data = s.data := by
    unfold takePart at part
    split at part
    · obtain ⟨n, _, part⟩ := Loops.ok_of_bind part
      cases part
      exact ⟨rfl, rfl, rfl⟩
    · obtain ⟨x, _, part⟩ := Loops.ok_of_bind part
      cases part
      exact ⟨rfl, rfl, rfl⟩
  simp only [finishLine, if_neg unfinished] at one
  cases one
  exact ⟨by rw [kept.1, labelled], by rw [kept.2.1, count], by rw [kept.2.2, same]⟩

end Turns

section RoundTrip
variable {c : Narrowing V}

theorem getDataFromS3_words {front : List UInt8} (header : front.length = 8) {words : List (List UInt8)}
    (sized : ∀ word ∈ words, word.length = 4) :
    getDataFromS3 c true (front ++ words.flatten) =
      words.foldlM (takeBytes c true) {} >>= fun s => .ok (s.data, some s.labels) := by
  have turns : ((front ++ words.flatten).length - 8 + 3) / 4 = words.length := by
    rw [List.length_append, words_length sized]
    omega
  have cut := words_joined sized front
  rw [header] at cut
  unfold getDataFromS3
  rw [turns, ← List.foldlM_map (g := takeBytes c true), cut]
  rfl

theorem body_words (bits : List UInt32) (narrowed : List (Row UInt32)) :
    (sampled bits narrowed).flatMap (putSample wire) =
      ((bits.zip narrowed).flatMap fun s => lineWords s.1 s.2).flatten := by
  unfold sampled
  induction bits.zip narrowed with
  | nil => rfl
  | cons s rest ih =>
    rw [List.map_cons, List.flatMap_cons, List.flatMap_cons, List.flatten_append, lineWords_flatten, ih]

theorem body_sized (samples : List (UInt32 × Row UInt32)) :
    ∀ word ∈ samples.flatMap fun s => lineWords s.1 s.2, word.length = 4 := by
  intro word member
  obtain ⟨s, _, there⟩ := List.mem_flatMap.mp member
  exact lineWords_sized s.1 s.2 word there

theorem words_read {samples : List (UInt32 × Row UInt32)} (nonempty : ∀ s ∈ samples, s.2 ≠ [])
    (short : ∀ s ∈ samples, s.2.length < 2 ^ 31) :
    ((samples.flatMap fun s => lineWords s.1 s.2).foldlM (takeBytes c true) {} >>= fun s => .ok (s.data, some s.labels)) =
      (.ok (samples.map fun s => readRow c s.2, some (samples.map fun s => wire.feature.put s.1)) :
        Except Fault (List (ReadRow V) × Option (List (List UInt8)))) := by
  obtain ⟨idx, done⟩ := takeBytes_lines (c := c) samples nonempty short [] [] none
  exact Loops.bind_of_ok done _

/-- If one has none, the rows from the first such on are lost. -/
theorem words_lost {samples : List (UInt32 × Row UInt32)} (short : ∀ s ∈ samples, s.2.length < 2 ^ 31)
    (empty : ∃ s ∈ samples, s.2 = []) {t : Reading V}
    (done : (samples.flatMap fun s => lineWords s.1 s.2).foldlM (takeBytes c true) {} = .ok t) :
    t.data.length < samples.length := by
  have some_empty : (samples.find? fun s => s.2.isEmpty).isSome := by
    obtain ⟨s, member, none_there⟩ := empty
    exact List.find?_isSome.mpr ⟨s, member, List.isEmpty_iff.mpr none_there⟩
  obtain ⟨s, found⟩ := Option.isSome_iff_exists.mp some_empty
  obtain ⟨none_there, before, after, rfl, values⟩ := List.find?_eq_some_iff_append.mp found
  rw [List.forall_mem_append] at short
  have nonempty : ∀ s ∈ before, s.2 ≠ [] := fun s member => by simpa using values s member
  obtain ⟨idx, first⟩ := takeBytes_lines (c := c) before nonempty short.1 [] [] none
  have words : lineWords s.1 s.2 = [wire.feature.put s.1, wire.int.put (toInt 0)] := by
    rw [lineWords, List.isEmpty_iff.mp none_there]
    rfl
  have start : (before.flatMap fun s => lineWords s.1 s.2).foldlM (takeBytes c true) {} = _ := first
  rw [List.flatMap_append, List.flatMap_cons, List.foldlM_append, Loops.bind_of_ok start, List.foldlM_append, words,
    Loops.bind_of_ok (takeBytes_start _ _ _ _ (by decide))] at done
  have kept : t.data = before.map fun s => readRow c s.2 := takeBytes_stuck ⟨rfl, rfl, rfl⟩ done
  rw [kept, List.length_map, List.length_append, List.length_cons]
  omega

def roundTrip (c : Narrowing V) (rows : List (PyRow V)) (labels : List (List UInt8)) :
    Except Fault (List (ReadRow V) × Option (List (List UInt8))) := do
  let object ← serializeData c rows (some labels)
  getDataFromS3 c true object

def asRead (rows : List (PyRow V)) : List (ReadRow V) := rows.map (·.map fun e => (some e.1, e.2))

theorem labels_words {labels : List (List UInt8)} (words : ∀ l ∈ labels, l.length = 4) :
    ∃ bits : List UInt32, bits.map wire.feature.put = labels := by
  refine ⟨labels.map wire.feature.get, ?_⟩
  have back : labels.map (wire.feature.put ∘ wire.feature.get) = labels.map id :=
    List.map_congr_left fun l member => littleEndian_full.2 l (words l member)
  rw [List.map_map, back, List.map_id]

theorem packedSize_bounds (rows : List (PyRow V)) :
    8 * rows.length ≤ packedSize rows ∧ ∀ row ∈ rows, 8 * row.length ≤ packedSize rows := by
  unfold packedSize
  induction rows with
  | nil => exact ⟨Nat.zero_le _, nofun⟩
  | cons row rest ih =>
    rw [List.map_cons, List.sum_cons, List.length_cons, List.forall_mem_cons]
    refine ⟨by omega, by omega, fun other member => ?_⟩
    have part := ih.2 other member
    omega

theorem zip_short {rows : List (PyRow V)} {narrowed : List (Row UInt32)} (each : Narrowed c rows narrowed)
    (bits : List UInt32) : ∀ s ∈ bits.zip narrowed, s.2.length < 2 ^ 31 := by
  intro s member
  obtain ⟨row, there, same⟩ := narrowed_source each (List.of_mem_zip member).2
  rw [narrowRow_length same]
  exact narrowed_small each row there

/-- They come back as they were if each has a value and the object is small enough for its size to be packed. -/
theorem round_trip_iff (c : Narrowing V) (rows : List (PyRow V)) (labels : List (List UInt8))
    (size : labels.length = rows.length) (words : ∀ l ∈ labels, l.length = 4) (exact : ∀ row ∈ rows, Exact c row) :
    roundTrip c rows labels = .ok (asRead rows, some labels) ↔ (∀ row ∈ rows, row ≠ []) ∧ packedSize rows < 2 ^ 31 := by
  obtain ⟨bits, rfl⟩ := labels_words words
  rw [List.length_map] at size
  have given : ∀ i l, bits[i]? = some l → labelOf (some (bits.map wire.feature.put)) i = .ok (wire.feature.put l) :=
    fun i l there => given_bits (n := rows.length) rfl i l there
  have packs := serializeData_iff c (some (bits.map wire.feature.put)) rows bits size given
  constructor
  · intro back
    obtain ⟨object, packed, read⟩ := Loops.ok_of_bind back
    obtain ⟨narrowed, each, fits, _, rfl⟩ := (packs object).mp packed
    rw [sampled_size each size] at fits
    refine ⟨fun row member empty => ?_, fits⟩
    rw [← List.append_assoc, body_words, getDataFromS3_words (by simp) (body_sized _)] at read
    obtain ⟨t, done, read⟩ := Loops.ok_of_bind read
    have data : t.data = asRead rows := (Prod.ext_iff.mp (Except.ok.inj read)).1
    have zipped : (bits.zip narrowed).map Prod.snd = narrowed := List.map_snd_zip (by rw [size, each.length_eq])
    have some_empty : ∃ s ∈ bits.zip narrowed, s.2 = [] := by
      obtain ⟨row', there, same⟩ := narrowed_target each member
      rw [← zipped] at there
      obtain ⟨s, both, rfl⟩ := List.mem_map.mp there
      refine ⟨s, both, List.length_eq_zero_iff.mp ?_⟩
      rw [narrowRow_length same, empty, List.length_nil]
    have lost := words_lost (zip_short each bits) some_empty done
    rw [data, asRead, List.length_map, List.length_zip, size] at lost
    omega
  · intro ⟨nonempty, fits⟩
    have bounds := packedSize_bounds rows
    obtain ⟨narrowed, each, back⟩ := narrowed_exact exact fun row member => by
      have part := bounds.2 row member
      omega
    have zipped : (bits.zip narrowed).map Prod.snd = narrowed := List.map_snd_zip (by rw [size, each.length_eq])
    have fits' := sampled_size each size
    have packed := (packs _).mpr ⟨narrowed, each, by omega, by omega, rfl⟩
    have values : ∀ s ∈ bits.zip narrowed, s.2 ≠ [] := by
      intro s member empty
      obtain ⟨row, there, same⟩ := narrowed_source each (List.of_mem_zip member).2
      have length := narrowRow_length same
      rw [empty] at length
      exact nonempty row there (List.length_eq_zero_iff.mp length.symm)
    unfold roundTrip
    rw [Loops.bind_of_ok packed, ← List.append_assoc, body_words, getDataFromS3_words (by simp) (body_sized _),
      words_read values (zip_short each bits)]
    have data : (bits.zip narrowed).map (fun s => readRow c s.2) = asRead rows := by
      have same : (bits.zip narrowed).map (fun s => readRow c s.2) = ((bits.zip narrowed).map Prod.snd).map (readRow c) := by
        rw [List.map_map]
        rfl
      rw [same, zipped, ← back, asRead, List.map_map]
      exact List.map_congr_left fun row _ => by simp [readRow]
    have kept : (bits.zip narrowed).map (fun s => wire.feature.put s.1) = bits.map wire.feature.put := by
      have firsts : (bits.zip narrowed).map Prod.fst = bits := List.map_fst_zip (by rw [size, each.length_eq])
      conv_rhs => rw [← firsts, List.map_map]
      rfl
    rw [data, kept]

theorem two_rows_back : roundTrip sameFloats [[(3, 7)], [(0, 1), (-2, 0)]] [[1, 2, 3, 4], [0, 0, 0, 0]] =
    .ok (asRead [[(3, 7)], [(0, 1), (-2, 0)]], some [[1, 2, 3, 4], [0, 0, 0, 0]]) :=
  (round_trip_iff sameFloats [[(3, 7)], [(0, 1), (-2, 0)]] [[1, 2, 3, 4], [0, 0, 0, 0]] rfl (by decide)
    (by simp [Exact, sameFloats]; omega)).mpr (by decide)

/-- A row without values hides itself and the row after it. -/
theorem row_swallowed :
    roundTrip sameFloats [[], [(3, 7)]] [[0, 0, 0, 0], [0, 0, 128, 63]] = .ok ([], some [[0, 0, 0, 0]]) ∧
    ¬ ∀ (rows : List (PyRow UInt32)) (labels : List (List UInt8)), labels.length = rows.length →
      (∀ l ∈ labels, l.length = 4) → (∀ row ∈ rows, Exact sameFloats row) →
      roundTrip sameFloats rows labels = .ok (asRead rows, some labels) := by
  have lost : roundTrip sameFloats [[], [(3, 7)]] [[0, 0, 0, 0], [0, 0, 128, 63]] = .ok ([], some [[0, 0, 0, 0]]) := rfl
  refine ⟨lost, fun claimed => ?_⟩
  have back := claimed [[], [(3, 7)]] [[0, 0, 0, 0], [0, 0, 128, 63]] rfl (by decide) (by simp [Exact, sameFloats])
  rw [lost] at back
  exact List.cons_ne_nil _ _ (Prod.ext_iff.mp (Except.ok.inj back)).1.symm

end RoundTrip
end PythonObjects

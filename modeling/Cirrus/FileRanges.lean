import Cirrus.Lib.Words
import Cirrus.S3IteratorLibsvm

/-!
The ranges that `getFileRange` returns. They are those of the file as long as
no number on the way is too large for its type: the bounds of the sampler are
`int`s, and the end of a range is computed before it is cut off.
-/
namespace S3IteratorLibsvm
variable {F : Type}

/-- The upper bound that is given to the sampler. The lower one is 0. -/
def Iterator.samplerBound (it : Iterator F) : Int32 := (it.fileSize - 1).toUInt32.toInt32

/-- The ranges that have been returned, and `cur_index` afterwards. -/
inductive Calls (it : Iterator F) : List Range → UInt64 → Prop where
  | start : Calls it [] 0
  | call {ranges : List Range} {curIndex after : UInt64} {sampled : Int32} {range : Range}
      (before : Calls it ranges curIndex) (chosen : it.getFileRange curIndex sampled = some (range, after)) :
      Calls it (ranges ++ [range]) after

inductive Tiles : List Range → Nat → Prop where
  | front : Tiles [] 0
  | next {ranges : List Range} {place : Nat} {range : Range} (before : Tiles ranges place)
      (begins : range.1.toNat = place) (nonempty : place < range.2.toNat) : Tiles (ranges ++ [range]) range.2.toNat

def InRounds (size : Nat) (ranges : List Range) (place : Nat) : Prop :=
  ∃ (rounds : List (List Range)) (current : List Range), ranges = rounds.flatten ++ current ∧ (∀ round ∈ rounds, Tiles round size) ∧
    Tiles current place ∧ place < size

/-- What is expected of the ranges of a file, whatever is sampled. -/
structure ValidRanges (it : Iterator F) : Prop where
  returns : ∀ ranges curIndex, Calls it ranges curIndex → ∀ sampled, 0 ≤ sampled → sampled ≤ it.samplerBound →
    (it.getFileRange curIndex sampled).isSome
  within : ∀ ranges curIndex, Calls it ranges curIndex → ∀ range ∈ ranges,
    range.1 < range.2 ∧ range.2 ≤ it.fileSize ∧ range.2 - range.1 ≤ fetchSize
  sequential : it.randomAccess = false → ∀ ranges curIndex, Calls it ranges curIndex →
    ∃ place, InRounds it.fileSize.toNat ranges place
  random : it.randomAccess = true → fetchSize ≤ it.fileSize →
    0 ≤ it.samplerBound ∧
    (∀ ranges curIndex, Calls it ranges curIndex → ∀ range ∈ ranges, range.2 - range.1 = fetchSize) ∧
    ∀ offset, offset ≤ it.fileSize - fetchSize → ∃ sampled, 0 ≤ sampled ∧ sampled ≤ it.samplerBound ∧
      ∀ curIndex, it.getFileRange curIndex sampled = some ((offset, offset + fetchSize), curIndex)

/-- A file is fetched as a whole, or its offsets are `int`s, or the ends of its ranges are `uint64_t`s. -/
def Iterator.InTypes (it : Iterator F) : Prop :=
  it.fileSize < fetchSize ∨
    if it.randomAccess then it.fileSize.toNat ≤ 2 ^ 31 else it.fileSize.toNat ≤ 2 ^ 64 / fetchSize.toNat * fetchSize.toNat

instance (it : Iterator F) : Decidable it.InTypes := inferInstanceAs (Decidable (_ ∨ _))

section Bounds
variable {it : Iterator F}

theorem fetchSize_toNat : fetchSize.toNat = 10485760 := rfl

theorem samplerBound_toInt (some_file : 0 < it.fileSize) :
    it.samplerBound.toInt = ((it.fileSize.toNat - 1 : Nat) : Int).bmod (2 ^ 32) := by
  have number : (it.fileSize - 1).toNat = it.fileSize.toNat - 1 :=
    UInt64.toNat_sub_of_le it.fileSize 1 (UInt64.le_iff_toNat_le.mpr (UInt64.lt_iff_toNat_lt.mp some_file))
  have narrow : it.samplerBound = Int32.ofNat (it.fileSize - 1).toNat := rfl
  rw [narrow, Int32.toInt_ofNat', number]
  rfl

theorem getFileRange_cases {curIndex after : UInt64} {sampled : Int32} {range : Range}
    (chosen : it.getFileRange curIndex sampled = some (range, after)) :
    (it.fileSize < fetchSize ∧ range = (0, it.fileSize) ∧ after = curIndex) ∨
    (fetchSize ≤ it.fileSize ∧ it.randomAccess = true ∧ 0 ≤ sampled.toInt ∧ sampled.toInt ≤ it.samplerBound.toInt ∧
      range.1 = (if it.fileSize - UInt64.ofNat sampled.toInt.toNat < fetchSize then it.fileSize - fetchSize
        else UInt64.ofNat sampled.toInt.toNat) ∧ range.2 = range.1 + fetchSize) ∨
    (fetchSize ≤ it.fileSize ∧ it.randomAccess = false ∧ range.1 = (if it.fileSize ≤ curIndex then 0 else curIndex) ∧
      range.2 = min (range.1 + fetchSize) it.fileSize ∧ after = range.2) := by
  unfold Iterator.getFileRange at chosen
  split at chosen
  next small =>
    cases chosen
    exact .inl ⟨small, rfl, rfl⟩
  next large =>
    rw [UInt64.not_lt] at large
    split at chosen
    next random =>
      split at chosen
      next bounds =>
        cases chosen
        exact .inr (.inl ⟨large, random, Int32.le_iff_toInt_le.mp bounds.1, Int32.le_iff_toInt_le.mp bounds.2, rfl, rfl⟩)
      next => cases chosen
    next sequential =>
      cases chosen
      exact .inr (.inr ⟨large, by simpa using sequential, rfl, rfl, rfl⟩)

end Bounds

section Sequential
variable {it : Iterator F} {ranges : List Range} {range : Range} {place : Nat}

theorem InRounds.below {size : Nat} (rounds : InRounds size ranges place) : place < size := by
  obtain ⟨_, _, _, _, _, below⟩ := rounds
  exact below

theorem InRounds.next {size : Nat} (before : InRounds size ranges place) (begins : range.1.toNat = place)
    (nonempty : place < range.2.toNat) (inside : range.2.toNat ≤ size) :
    InRounds size (ranges ++ [range]) (if range.2.toNat = size then 0 else range.2.toNat) := by
  obtain ⟨rounds, current, rfl, whole, tiles, below⟩ := before
  have longer := tiles.next begins nonempty
  split
  next ended =>
    -- the round is over, and the next call begins at the front again
    refine ⟨rounds ++ [current ++ [range]], [], ?_, ?_, .front, Nat.lt_of_le_of_lt (Nat.zero_le _) below⟩
    · rw [List.flatten_concat, List.append_nil, List.append_assoc]
    · rw [List.forall_mem_append, List.forall_mem_singleton]
      exact ⟨whole, ended ▸ longer⟩
  next other =>
    refine ⟨rounds, current ++ [range], List.append_assoc _ _ _, whole, longer, ?_⟩
    omega

def placeOf (it : Iterator F) (curIndex : UInt64) : Nat :=
  if it.fileSize.toNat ≤ curIndex.toNat then 0 else curIndex.toNat

theorem place_multiple (sequential : it.randomAccess = false) (large : fetchSize ≤ it.fileSize)
    (small : it.fileSize.toNat ≤ 2 ^ 64 / fetchSize.toNat * fetchSize.toNat) {curIndex : UInt64}
    (calls : Calls it ranges curIndex) :
    (∃ k, placeOf it curIndex = k * fetchSize.toNat) ∧ InRounds it.fileSize.toNat ranges (placeOf it curIndex) ∧
      ∀ range ∈ ranges, range.1 < range.2 ∧ range.2 ≤ it.fileSize ∧ range.2 - range.1 ≤ fetchSize := by
  have positive : fetchSize.toNat ≤ it.fileSize.toNat := UInt64.le_iff_toNat_le.mp large
  rw [fetchSize_toNat] at positive small ⊢
  induction calls with
  | start =>
    have front : placeOf it 0 = 0 := ite_self 0
    rw [front]
    refine ⟨⟨0, rfl⟩, ⟨[], [], rfl, nofun, .front, by omega⟩, nofun⟩
  | @call ranges curIndex after sampled range before chosen ih =>
    obtain ⟨⟨k, multiple⟩, rounds, within⟩ := ih
    rcases getFileRange_cases chosen with ⟨less, _⟩ | ⟨_, random, _⟩ | ⟨_, _, left, right, rfl⟩
    · exact absurd less (UInt64.not_lt.mpr large)
    · rw [sequential] at random
      cases random
    · have begins : range.1.toNat = placeOf it curIndex := by
        rw [left, placeOf]
        simp only [UInt64.le_iff_toNat_le]
        split <;> rfl
      have inside : placeOf it curIndex < it.fileSize.toNat := rounds.below
      -- a multiple of FETCH_SIZE below the size has room for another range
      have room : range.1.toNat + 10485760 < 2 ^ 64 := by omega
      have ends : range.2.toNat = min (range.1.toNat + 10485760) it.fileSize.toNat := by
        rw [right, Words.toNat_min, UInt64.toNat_add, fetchSize_toNat, Nat.mod_eq_of_lt room]
      have here := rounds.next begins (by omega) (by omega)
      have next : placeOf it range.2 = if range.2.toNat = it.fileSize.toNat then 0 else range.2.toNat := by
        rw [placeOf]
        split <;> split <;> omega
      rw [next]
      refine ⟨?_, here, ?_⟩
      · split
        next => exact ⟨0, rfl⟩
        next => exact ⟨k + 1, by omega⟩
      · rw [List.forall_mem_append, List.forall_mem_singleton]
        refine ⟨within, ?_⟩
        have order : range.1 ≤ range.2 := UInt64.le_iff_toNat_le.mpr (by omega)
        rw [UInt64.lt_iff_toNat_lt, UInt64.le_iff_toNat_le, UInt64.le_iff_toNat_le, UInt64.toNat_sub_of_le _ _ order,
          fetchSize_toNat]
        omega

theorem getFileRange_next (sequential : it.randomAccess = false) (large : fetchSize ≤ it.fileSize) {curIndex : UInt64}
    (below : curIndex < it.fileSize) (sampled : Int32) : it.getFileRange curIndex sampled =
      some ((curIndex, min (curIndex + fetchSize) it.fileSize), min (curIndex + fetchSize) it.fileSize) := by
  rw [Iterator.getFileRange, if_neg (UInt64.not_lt.mpr large), sequential, if_neg Bool.false_ne_true,
    if_neg (UInt64.not_le.mpr below)]

theorem calls_multiple (sequential : it.randomAccess = false) {k : Nat} (below : k * fetchSize.toNat < it.fileSize.toNat) :
    ∃ ranges, Calls it ranges (UInt64.ofNat (k * fetchSize.toNat)) := by
  have size := it.fileSize.toNat_lt
  induction k with
  | zero =>
    rw [Nat.zero_mul]
    exact ⟨[], .start⟩
  | succ k ih =>
    rw [Nat.succ_mul] at below ⊢
    obtain ⟨ranges, before⟩ := ih (by omega)
    have here : (UInt64.ofNat (k * fetchSize.toNat)).toNat = k * fetchSize.toNat :=
      UInt64.toNat_ofNat_of_lt' (by rw [UInt64.size]; omega)
    have large : fetchSize ≤ it.fileSize := UInt64.le_iff_toNat_le.mpr (by omega)
    have chosen := getFileRange_next sequential large (UInt64.lt_iff_toNat_lt.mpr (by rw [here]; omega)) 0
    have after : min (UInt64.ofNat (k * fetchSize.toNat) + fetchSize) it.fileSize =
        UInt64.ofNat (k * fetchSize.toNat + fetchSize.toNat) := by
      apply UInt64.toNat_inj.mp
      rw [Words.toNat_min, UInt64.toNat_add, here, Nat.mod_eq_of_lt (by omega),
        UInt64.toNat_ofNat_of_lt' (by rw [UInt64.size]; omega)]
      exact Nat.min_eq_left (by omega)
    rw [after] at chosen
    exact ⟨_, before.call chosen⟩

/-- The end of a range past the last multiple of FETCH_SIZE wraps around. -/
theorem sequential_limit (valid : ValidRanges it) (sequential : it.randomAccess = false) :
    it.fileSize.toNat ≤ 2 ^ 64 / fetchSize.toNat * fetchSize.toNat := by
  by_contra large
  have limit : 2 ^ 64 / fetchSize.toNat * fetchSize.toNat = 18446744073703260160 := rfl
  have below : 2 ^ 64 / fetchSize.toNat * fetchSize.toNat < it.fileSize.toNat := Nat.lt_of_not_le large
  obtain ⟨ranges, calls⟩ := calls_multiple sequential below
  rw [limit] at below calls
  have whole : fetchSize ≤ it.fileSize := UInt64.le_iff_toNat_le.mpr (by rw [fetchSize_toNat]; omega)
  have inside : UInt64.ofNat 18446744073703260160 < it.fileSize := UInt64.lt_iff_toNat_lt.mpr below
  have chosen := getFileRange_next sequential whole inside 0
  have ordered := (valid.within _ _ (calls.call chosen) _ (List.mem_append_right _ (List.mem_singleton_self _))).1
  rw [UInt64.lt_iff_toNat_lt, Words.toNat_min] at ordered
  have wrapped : (UInt64.ofNat 18446744073703260160 + fetchSize).toNat = 4194304 := rfl
  have start : (UInt64.ofNat 18446744073703260160).toNat = 18446744073703260160 := rfl
  rw [wrapped] at ordered
  dsimp only at ordered
  rw [start] at ordered
  omega

end Sequential

section Random
variable {it : Iterator F}

theorem small_sampler (some_file : 0 < it.fileSize) (small : it.fileSize.toNat ≤ 2 ^ 31) :
    it.samplerBound.toInt = it.fileSize.toNat - 1 := by
  have positive := UInt64.lt_iff_toNat_lt.mp some_file
  have bound := samplerBound_toInt some_file
  rw [Int.bmod_def] at bound
  omega

theorem sampled_toNat (sampled : Int32) : (UInt64.ofNat sampled.toInt.toNat).toNat = sampled.toInt.toNat :=
  UInt64.toNat_ofNat_of_lt' (by
    have small := sampled.toInt_lt
    rw [UInt64.size]
    omega)

theorem random_within (some_file : 0 < it.fileSize) (random : it.randomAccess = true) (large : fetchSize ≤ it.fileSize)
    (small : it.fileSize.toNat ≤ 2 ^ 31) {curIndex after : UInt64} {sampled : Int32} {range : Range}
    (chosen : it.getFileRange curIndex sampled = some (range, after)) :
    range.1 < range.2 ∧ range.2 ≤ it.fileSize ∧ range.2 - range.1 = fetchSize := by
  have bound := small_sampler some_file small
  have size := UInt64.le_iff_toNat_le.mp large
  rcases getFileRange_cases chosen with ⟨less, _⟩ | ⟨_, _, nonneg, below, left, right⟩ | ⟨_, sequential, _⟩
  · exact absurd less (UInt64.not_lt.mpr large)
  · have here := sampled_toNat sampled
    have inside : range.1.toNat + fetchSize.toNat ≤ it.fileSize.toNat := by
      rw [left]
      split
      next => rw [UInt64.toNat_sub_of_le _ _ large]; omega
      next room =>
        have order : UInt64.ofNat sampled.toInt.toNat ≤ it.fileSize := UInt64.le_iff_toNat_le.mpr (by omega)
        rw [UInt64.lt_iff_toNat_lt, UInt64.toNat_sub_of_le _ _ order] at room
        omega
    have ends : range.2.toNat = range.1.toNat + fetchSize.toNat := by
      rw [right, UInt64.toNat_add, Nat.mod_eq_of_lt (by omega)]
    rw [fetchSize_toNat] at ends inside
    have order : range.1 ≤ range.2 := UInt64.le_iff_toNat_le.mpr (by omega)
    rw [UInt64.lt_iff_toNat_lt, UInt64.le_iff_toNat_le, ← UInt64.toNat_inj, UInt64.toNat_sub_of_le _ _ order, fetchSize_toNat]
    omega
  · rw [random] at sequential
    cases sequential

theorem random_offset (some_file : 0 < it.fileSize) (random : it.randomAccess = true) (large : fetchSize ≤ it.fileSize)
    (small : it.fileSize.toNat ≤ 2 ^ 31) {offset : UInt64} (inside : offset ≤ it.fileSize - fetchSize) :
    ∃ sampled, 0 ≤ sampled ∧ sampled ≤ it.samplerBound ∧
      ∀ curIndex, it.getFileRange curIndex sampled = some ((offset, offset + fetchSize), curIndex) := by
  have bound := small_sampler some_file small
  have size := UInt64.le_iff_toNat_le.mp large
  rw [UInt64.le_iff_toNat_le, UInt64.toNat_sub_of_le _ _ large] at inside
  rw [fetchSize_toNat] at size inside
  have value : (Int32.ofNat offset.toNat).toInt = offset.toNat := Int32.toInt_ofNat_of_lt (by omega)
  have nonneg : 0 ≤ Int32.ofNat offset.toNat := Int32.le_iff_toInt_le.mpr (by rw [value]; exact Int.natCast_nonneg _)
  have below : Int32.ofNat offset.toNat ≤ it.samplerBound := Int32.le_iff_toInt_le.mpr (by rw [value, bound]; omega)
  refine ⟨Int32.ofNat offset.toNat, nonneg, below, fun curIndex => ?_⟩
  have left : UInt64.ofNat (Int32.ofNat offset.toNat).toInt.toNat = offset := by
    rw [value, Int.toNat_natCast, UInt64.ofNat_toNat]
  have order : offset ≤ it.fileSize := UInt64.le_iff_toNat_le.mpr (by omega)
  have room : ¬ it.fileSize - offset < fetchSize := by
    rw [UInt64.lt_iff_toNat_lt, UInt64.toNat_sub_of_le _ _ order, fetchSize_toNat]
    omega
  rw [Iterator.getFileRange, if_neg (UInt64.not_lt.mpr large), if_pos random, if_pos ⟨nonneg, below⟩]
  simp only [left, if_neg room]

/-- Past 2 GB the sampler gets no range of `int`s, or one that ends before the last offset. -/
theorem random_limit (some_file : 0 < it.fileSize) (valid : ValidRanges it) (random : it.randomAccess = true)
    (large : fetchSize ≤ it.fileSize) : it.fileSize.toNat ≤ 2 ^ 31 := by
  by_contra past
  obtain ⟨nonneg, _, offsets⟩ := valid.random random large
  obtain ⟨sampled, _, _, returns⟩ := offsets _ UInt64.le_rfl
  have bound := samplerBound_toInt some_file
  have size := UInt64.le_iff_toNat_le.mp large
  rw [Int32.le_iff_toInt_le, bound, Int.bmod_def] at nonneg
  rw [Int.bmod_def] at bound
  have zero : (0 : Int32).toInt = 0 := rfl
  rcases getFileRange_cases (returns 0) with ⟨less, _⟩ | ⟨_, _, sampled_nonneg, below, left, _⟩ | ⟨_, sequential, _⟩
  · exact absurd less (UInt64.not_lt.mpr large)
  · have here := sampled_toNat sampled
    have order : UInt64.ofNat sampled.toInt.toNat ≤ it.fileSize := UInt64.le_iff_toNat_le.mpr (by omega)
    have room : ¬ it.fileSize - UInt64.ofNat sampled.toInt.toNat < fetchSize := by
      rw [UInt64.lt_iff_toNat_lt, UInt64.toNat_sub_of_le _ _ order, fetchSize_toNat]
      omega
    rw [if_neg room, ← UInt64.toNat_inj, UInt64.toNat_sub_of_le _ _ large, fetchSize_toNat] at left
    omega
  · rw [random] at sequential
    cases sequential

end Random

section Exactly
variable {it : Iterator F}

theorem Calls.all {P : Range → Prop} (each : ∀ curIndex sampled range after,
    it.getFileRange curIndex sampled = some (range, after) → P range) {ranges : List Range} {curIndex : UInt64}
    (calls : Calls it ranges curIndex) : ∀ range ∈ ranges, P range := by
  induction calls with
  | start => nofun
  | call before chosen ih =>
    rw [List.forall_mem_append, List.forall_mem_singleton]
    exact ⟨ih, each _ _ _ _ chosen⟩

theorem small_range (small : it.fileSize < fetchSize) (curIndex : UInt64) (sampled : Int32) :
    it.getFileRange curIndex sampled = some ((0, it.fileSize), curIndex) := if_pos small

theorem small_within (some_file : 0 < it.fileSize) (small : it.fileSize < fetchSize) {curIndex after : UInt64}
    {sampled : Int32} {range : Range} (chosen : it.getFileRange curIndex sampled = some (range, after)) :
    range.1 < range.2 ∧ range.2 ≤ it.fileSize ∧ range.2 - range.1 ≤ fetchSize := by
  rw [small_range small] at chosen
  cases chosen
  refine ⟨some_file, UInt64.le_rfl, ?_⟩
  rw [UInt64.sub_zero]
  exact UInt64.le_of_lt small

theorem small_rounds (some_file : 0 < it.fileSize) (small : it.fileSize < fetchSize) {ranges : List Range}
    {curIndex : UInt64} (calls : Calls it ranges curIndex) : InRounds it.fileSize.toNat ranges 0 := by
  have positive := UInt64.lt_iff_toNat_lt.mp some_file
  induction calls with
  | start => exact ⟨[], [], rfl, nofun, .front, positive⟩
  | call before chosen ih =>
    rw [small_range small] at chosen
    cases chosen
    have front : ((0, it.fileSize) : Range).1.toNat = 0 := rfl
    have round := ih.next front positive (Nat.le_refl _)
    rwa [if_pos rfl] at round

theorem getFileRange_isSome (curIndex : UInt64) {sampled : Int32} (nonneg : 0 ≤ sampled)
    (below : sampled ≤ it.samplerBound) : (it.getFileRange curIndex sampled).isSome := by
  unfold Iterator.getFileRange
  split
  next => rfl
  next =>
    split
    next =>
      rw [if_pos ⟨nonneg, below⟩]
      rfl
    next => rfl

/-- The ranges are valid as long as the numbers are in their types, and no longer. -/
theorem valid_ranges_iff (it : Iterator F) (some_file : 0 < it.fileSize) : ValidRanges it ↔ it.InTypes := by
  have positive := UInt64.lt_iff_toNat_lt.mp some_file
  constructor
  · intro valid
    rcases UInt64.lt_or_le it.fileSize fetchSize with small | large
    · exact .inl small
    · right
      split
      next random => exact random_limit some_file valid random large
      next sequential => exact sequential_limit valid (by simpa using sequential)
  · intro types
    refine ⟨fun _ curIndex _ sampled nonneg below => getFileRange_isSome curIndex nonneg below, ?_, ?_, ?_⟩
    · intro ranges curIndex calls
      rcases UInt64.lt_or_le it.fileSize fetchSize with small | large
      · exact calls.all fun _ _ _ _ chosen => small_within some_file small chosen
      have numbers := types.resolve_left (UInt64.not_lt.mpr large)
      split at numbers
      next random =>
        refine calls.all fun _ _ _ _ chosen => ?_
        obtain ⟨order, inside, length⟩ := random_within some_file random large numbers chosen
        exact ⟨order, inside, length ▸ UInt64.le_rfl⟩
      next sequential => exact (place_multiple (by simpa using sequential) large numbers calls).2.2
    · intro sequential ranges curIndex calls
      rcases UInt64.lt_or_le it.fileSize fetchSize with small | large
      · exact ⟨0, small_rounds some_file small calls⟩
      have numbers := types.resolve_left (UInt64.not_lt.mpr large)
      rw [sequential, if_neg Bool.false_ne_true] at numbers
      exact ⟨_, (place_multiple sequential large numbers calls).2.1⟩
    · intro random large
      have numbers := types.resolve_left (UInt64.not_lt.mpr large)
      rw [if_pos random] at numbers
      have bound := small_sampler some_file numbers
      refine ⟨Int32.le_iff_toInt_le.mpr (by rw [bound]; exact Int.le_sub_one_of_lt (Int.ofNat_lt.mpr positive)), ?_,
        fun offset inside => random_offset some_file random large numbers inside⟩
      intro ranges curIndex calls
      exact calls.all fun _ _ _ _ chosen => (random_within some_file random large numbers chosen).2.2

end Exactly

section Runs

def sized (fileSize : UInt64) (randomAccess : Bool) : Iterator Unit where
  sscanf := ⟨fun _ => 0, fun _ => 0, fun _ => (), fun _ => ()⟩
  minibatchRows := 1
  positive := by decide
  file := []
  fileSize := fileSize
  randomAccess := randomAccess

theorem valid_ranges_25 : ValidRanges (sized 26214400 false) ∧
    (sized 26214400 false).getFileRange 10485760 0 = some ((10485760, 20971520), 20971520) :=
  ⟨(valid_ranges_iff (sized 26214400 false) (by decide)).mpr (by decide), rfl⟩

/-- The sampler is given -1294967297 as its upper bound for a file of 3 GB. -/
theorem large_file_sampler : ¬ ∀ it : Iterator Unit, 0 < it.fileSize → ValidRanges it := by
  intro always
  have bounds := ((always (sized 3000000000 true) (by decide)).random rfl (by decide)).1
  exact absurd bounds (by decide)

end Runs
end S3IteratorLibsvm

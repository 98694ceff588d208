import Cirrus.NormalScaler
import Cirrus.SparseLRModel

/-!
`InputReader::normalize`, which is to bring every column of a dataset to mean 0
and variance 1. It divides a column by its standard deviation where the mean of
the column is not 0, and throws when a value is not finite afterwards.
-/
namespace DenseScaling
open SparseLR Loops
variable {F : Type}

structure Sqrt (F : Type) [Field F] [LinearOrder F] extends NormalScaler.Root F where
  nonneg : ∀ x, 0 ≤ x → 0 ≤ sqrt x

section Program
variable [Field F] [LinearOrder F]

def invalid : Fault := .exception "Value is not valid after normalization"

/-- `means[j] += data[i][j] / data.size()`. -/
def addMean (samples : Nat) (row means : List F) (j : Nat) : Except Fault (List F) := do
  addAt means j ((← at' row j) / samples)

/-- `sds[j] += std::pow(data[i][j] - means[j], 2)`. -/
def addSquare (means row sds : List F) (j : Nat) : Except Fault (List F) := do
  addAt sds j (((← at' row j) - (← at' means j)) ^ 2)

/-- The new value of a cell: a division by 0 gives a nan or an infinity. -/
def scaleCell (means sds row : List F) (j : Nat) : Except Fault (List F) := do
  let x ← at' row j
  let mean ← at' means j
  let sd ← at' sds j
  if mean ≠ 0 then
    if sd = 0 then .error invalid else setAt row j ((x - mean) / sd)
  else pure row

def normalize (sqrt : Sqrt F) (data : List (List F)) : Except Fault (List (List F)) :=
  match data with
  | [] => .error .undefined
  | first :: _ => do
    let features := List.range first.length
    let zeros := List.replicate first.length (0 : F)
    let means ← data.foldlM (fun means row => features.foldlM (addMean data.length row) means) zeros
    let sums ← data.foldlM (fun sds row => features.foldlM (addSquare means row) sds) zeros
    let sds := sums.map fun sum => sqrt.sqrt (sum / data.length)
    data.mapM fun row => features.foldlM (scaleCell means sds) row

end Program

section Columns
variable [Field F] [LinearOrder F]

def column (data : List (List F)) (j : Nat) : List F := data.map fun row => row.getD j 0

def mean (data : List (List F)) (j : Nat) : F := (Moments.of (column data j)).mean

def variance (data : List (List F)) (j : Nat) : F := (Moments.of (column data j)).variance

def Constant (data : List (List F)) (j : Nat) : Prop := ∀ x ∈ column data j, ∀ y ∈ column data j, x = y

def Standardised (sqrt : Sqrt F) (features : Nat) (data out : List (List F)) : Prop :=
  ∀ j < features, ¬ Constant data j →
    column out j = (column data j).map (fun x => (x - mean data j) / sqrt.sqrt (variance data j)) ∧
      mean out j = 0 ∧ variance out j = 1

end Columns

section Passes
variable [Field F] {d : Nat}

theorem at'_getD {row : List F} {j : Nat} (inside : j < row.length) : at' row j = .ok (row.getD j 0) := by
  rw [at'_of_lt inside]
  simp [inside]

theorem addAt_vec {j : Nat} (inside : j < d) (now : Nat → F) (x : F) :
    addAt (vec d now) j x = .ok (vec d (Function.update now j (now j + x))) := by
  rw [addAt_ok]
  exact ⟨now j, vec_getElem? inside, (vec_set _ _).symm⟩

theorem sums_ok {data : List (List F)} {pass : List F → List F → Except Fault (List F)}
    (term : Nat → List F → F) (adds : ∀ row ∈ data, ∀ now : Nat → F,
      pass (vec d now) row = .ok (vec d fun j => now j + term j row)) :
    data.foldlM pass (List.replicate d 0) = .ok (vec d fun j => (data.map (term j)).sum) := by
  have zeros : List.replicate d (0 : F) = vec d fun _ => 0 := by simp [vec]
  obtain ⟨last, done, rfl⟩ := foldlM_gives (f := pass) (l := data) (s := vec d fun _ => (0 : F))
    (P := fun seen s => s = vec d fun j => (seen.map (term j)).sum)
    (fun seen row here s same => ⟨_, same ▸ adds row (mem_of_here here) _, by simp⟩) (by simp)
  rw [zeros, done]

theorem means_ok {data : List (List F)} (rect : ∀ row ∈ data, row.length = d) :
    data.foldlM (fun means row => (List.range d).foldlM (addMean data.length row) means) (List.replicate d 0) =
      .ok (vec d (mean data)) := by
  rw [sums_ok fun j row => row.getD j 0 / (data.length : F)]
  · congr 1
    apply vec_congr
    intro j _
    simp only [mean, Moments.mean, Moments.of, column, List.length_map, div_eq_mul_inv, List.sum_map_mul_right]
  · intro row member now
    apply foldlM_each
    intro j bound now' same
    rw [addMean, at'_getD (by rwa [rect row member])]
    exact (addAt_vec bound now' _).trans (by rw [same])

theorem squares_ok {data : List (List F)} (rect : ∀ row ∈ data, row.length = d) (m : Nat → F) :
    data.foldlM (fun sds row => (List.range d).foldlM (addSquare (vec d m) row) sds) (List.replicate d 0) =
      .ok (vec d fun j => ((column data j).map fun x => (x - m j) ^ 2).sum) := by
  rw [sums_ok fun j row => (row.getD j 0 - m j) ^ 2]
  · simp only [column, List.map_map, Function.comp_def]
  · intro row member now
    apply foldlM_each
    intro j bound now' same
    have value : at' (vec d m) j = .ok (m j) := at'_ok.mpr (vec_getElem? bound)
    rw [addSquare, at'_getD (by rwa [rect row member]), value]
    exact (addAt_vec bound now' _).trans (by rw [same])

end Passes

section Scaling
variable [Field F] [LinearOrder F] {d : Nat}

def Divides (m s : Nat → F) (j : Nat) : Prop := m j ≠ 0 ∧ s j = 0

def scaled (m s : Nat → F) (j : Nat) (x : F) : F := if m j ≠ 0 then (x - m j) / s j else x

theorem scaleRow_ok {row : List F} (width : row.length = d) {m s : Nat → F} (fine : ∀ j < d, ¬ Divides m s j) :
    (List.range d).foldlM (scaleCell (vec d m) (vec d s)) row =
      .ok (vec d fun j => scaled m s j (row.getD j 0)) := by
  have whole : row = vec d fun j => row.getD j 0 := eq_vec width fun j bound => by simp [width, bound]
  conv_lhs => rw [whole]
  apply foldlM_each
  intro j bound now same
  have value : at' (vec d now) j = .ok (row.getD j 0) := at'_ok.mpr ((vec_getElem? bound).trans (congrArg some same))
  have mean : at' (vec d m) j = .ok (m j) := at'_ok.mpr (vec_getElem? bound)
  have sd : at' (vec d s) j = .ok (s j) := at'_ok.mpr (vec_getElem? bound)
  rw [scaleCell, bind_of_ok value, bind_of_ok mean, bind_of_ok sd]
  unfold scaled
  by_cases centred : m j = 0
  · rw [if_neg (not_not.mpr centred), if_neg (not_not.mpr centred), ← same, Function.update_eq_self]
    rfl
  · have wide : s j ≠ 0 := fun zero => fine j bound ⟨centred, zero⟩
    rw [if_pos centred, if_pos centred, if_neg wide, setAt_of_lt (by rwa [vec_length]), vec_set]

theorem scaleRow_throws {row : List F} (width : row.length = d) {m s : Nat → F} (bad : ∃ j < d, Divides m s j) :
    (List.range d).foldlM (scaleCell (vec d m) (vec d s)) row = .error invalid := by
  have settles : Settles (fun last : List F => last.length = d ∧ ∀ j ∈ List.range d, ¬ Divides m s j)
      (fun fault => fault = invalid) ((List.range d).foldlM (scaleCell (vec d m) (vec d s)) row) := by
    apply foldlM_settles (P := fun (seen : List Nat) (last : List F) => last.length = d ∧ ∀ j ∈ seen, ¬ Divides m s j)
    · intro seen j here now before
      obtain ⟨length, fine⟩ := before
      have bound : j < d := List.mem_range.mp (mem_of_here here)
      have mean : at' (vec d m) j = .ok (m j) := at'_ok.mpr (vec_getElem? bound)
      have sd : at' (vec d s) j = .ok (s j) := at'_ok.mpr (vec_getElem? bound)
      rw [scaleCell, bind_of_ok (at'_of_lt (length.symm ▸ bound)), bind_of_ok mean, bind_of_ok sd]
      have next (ok : ¬ Divides m s j) : ∀ k ∈ seen ++ [j], ¬ Divides m s k := by
        intro k member
        rcases List.mem_append.mp member with before | last
        · exact fine k before
        · exact List.mem_singleton.mp last ▸ ok
      split
      next centred =>
        split
        next zero => exact .error rfl
        next wide =>
          rw [setAt_of_lt (length.symm ▸ bound)]
          exact .ok ⟨by rw [List.length_set, length], next fun divides => wide divides.2⟩
      next centred => exact .ok ⟨length, next fun divides => centred divides.1⟩
    · exact ⟨width, nofun⟩
  obtain ⟨j, bound, divides⟩ := bad
  cases result : (List.range d).foldlM (scaleCell (vec d m) (vec d s)) row with
  | ok last =>
    rw [result] at settles
    cases settles with
    | ok fine => exact absurd divides (fine.2 j (List.mem_range.mpr bound))
  | error fault =>
    rw [result] at settles
    cases settles with
    | error thrown => rw [thrown]

end Scaling

section Whole
variable [Field F]

theorem column_ne_nil {data : List (List F)} (some_row : data ≠ []) (j : Nat) : column data j ≠ [] := by
  simpa [column] using some_row

variable [LinearOrder F] {d : Nat}

def sd (sqrt : Sqrt F) (data : List (List F)) (j : Nat) : F := sqrt.sqrt (variance data j)

def scaledRows (sqrt : Sqrt F) (d : Nat) (data : List (List F)) : List (List F) :=
  data.map fun row => vec d fun j => scaled (mean data) (sd sqrt data) j (row.getD j 0)

theorem column_scaledRows (sqrt : Sqrt F) (data : List (List F)) {j : Nat} (bound : j < d) :
    column (scaledRows sqrt d data) j = (column data j).map (scaled (mean data) (sd sqrt data) j) := by
  unfold column scaledRows
  rw [List.map_map, List.map_map]
  apply List.map_congr_left
  intro row _
  rw [Function.comp_apply, Function.comp_apply, List.getD_eq_getElem?_getD, vec_getElem? bound, Option.getD_some]

variable [IsStrictOrderedRing F] {data : List (List F)} (sqrt : Sqrt F)

theorem sds_eq (some_row : data ≠ []) :
    (vec d fun j => ((column data j).map fun x => (x - mean data j) ^ 2).sum).map
      (fun sum => sqrt.sqrt (sum / data.length)) = vec d (sd sqrt data) := by
  rw [vec, List.map_map]
  apply List.map_congr_left
  intro j _
  rw [Function.comp_apply, sd, variance, Moments.variance_eq (column_ne_nil some_row j)]
  simp only [mean, Moments.of, column, List.length_map]

theorem sd_eq_zero_iff (some_row : data ≠ []) (j : Nat) : sd sqrt data j = 0 ↔ Constant data j := by
  have square := sqrt.square _ (Moments.variance_nonneg (column data j))
  rw [Constant, ← Moments.variance_eq_zero_iff (column_ne_nil some_row j)]
  constructor
  · intro zero
    rw [← square]
    exact mul_eq_zero_of_left zero _
  · intro zero
    rw [zero] at square
    rw [sd, variance, zero]
    exact mul_self_eq_zero.mp square

theorem divides_iff (some_row : data ≠ []) (j : Nat) :
    Divides (mean data) (sd sqrt data) j ↔ Constant data j ∧ mean data j ≠ 0 := by
  rw [Divides, sd_eq_zero_iff sqrt some_row, and_comm]

theorem normalize_eq (some_row : data ≠ []) (rect : ∀ row ∈ data, row.length = d) :
    normalize sqrt data =
      data.mapM fun row => (List.range d).foldlM (scaleCell (vec d (mean data)) (vec d (sd sqrt data))) row := by
  cases data with
  | nil => exact absurd rfl some_row
  | cons first rest =>
    have width : first.length = d := rect first List.mem_cons_self
    simp only [normalize, width]
    rw [bind_of_ok (means_ok rect), bind_of_ok (squares_ok rect (mean (first :: rest))), sds_eq sqrt some_row]

theorem normalize_ok (some_row : data ≠ []) (rect : ∀ row ∈ data, row.length = d)
    (fine : ∀ j < d, ¬ (Constant data j ∧ mean data j ≠ 0)) :
    normalize sqrt data = .ok (scaledRows sqrt d data) := by
  rw [normalize_eq sqrt some_row rect]
  apply mapM_pure
  intro row member
  exact scaleRow_ok (rect row member) fun j bound => (divides_iff sqrt some_row j).not.mpr (fine j bound)

theorem normalize_throws (some_row : data ≠ []) (rect : ∀ row ∈ data, row.length = d)
    (bad : ∃ j < d, Constant data j ∧ mean data j ≠ 0) : normalize sqrt data = .error invalid := by
  rw [normalize_eq sqrt some_row rect]
  have divides : ∃ j < d, Divides (mean data) (sd sqrt data) j := by simpa only [divides_iff sqrt some_row] using bad
  cases data with
  | nil => exact absurd rfl some_row
  | cons first rest =>
    rw [List.mapM_cons, bind_of_error (scaleRow_throws (rect first List.mem_cons_self) divides)]

theorem standardised_iff (some_row : data ≠ []) {j : Nat} (bound : j < d) (varies : ¬ Constant data j) :
    (column (scaledRows sqrt d data) j = (column data j).map (fun x => (x - mean data j) / sd sqrt data j) ∧
        mean (scaledRows sqrt d data) j = 0 ∧ variance (scaledRows sqrt d data) j = 1) ↔
      mean data j ≠ 0 ∨ variance data j = 1 := by
  have square := sqrt.square _ (Moments.variance_nonneg (column data j))
  have wide : variance data j ≠ 0 := fun zero =>
    varies ((Moments.variance_eq_zero_iff (column_ne_nil some_row j)).mp zero)
  have mean_out : mean (scaledRows sqrt d data) j =
      (Moments.of ((column data j).map (scaled (mean data) (sd sqrt data) j))).mean := by
    rw [mean, column_scaledRows sqrt data bound]
  have variance_out : variance (scaledRows sqrt d data) j =
      (Moments.of ((column data j).map (scaled (mean data) (sd sqrt data) j))).variance := by
    rw [variance, column_scaledRows sqrt data bound]
  rw [mean_out, variance_out, column_scaledRows sqrt data bound]
  by_cases centred : mean data j = 0
  · have same : (column data j).map (scaled (mean data) (sd sqrt data) j) = column data j := by
      have still : ∀ x ∈ column data j, scaled (mean data) (sd sqrt data) j x = id x :=
        fun x _ => if_neg (not_not.mpr centred)
      rw [List.map_congr_left still, List.map_id]
    rw [same, or_iff_right (not_not.mpr centred)]
    constructor
    · exact fun standard => standard.2.2
    · intro one
      have root : sd sqrt data j = 1 := by
        have positive := sqrt.nonneg 1 zero_le_one
        have unit := sqrt.square 1 zero_le_one
        rw [sd, one]
        nlinarith
      refine ⟨?_, centred, one⟩
      simp [centred, root]
  · have divided : (column data j).map (scaled (mean data) (sd sqrt data) j) =
        (column data j).map fun x => (x - mean data j) / sd sqrt data j :=
      List.map_congr_left fun x _ => if_pos centred
    rw [divided]
    have standard := Moments.standardized (column_ne_nil some_row j) square wide
    exact ⟨fun _ => .inl centred, fun _ => ⟨rfl, standard⟩⟩

/-- A dataset is standardised, or the function throws, unless a column that varies around 0 has another variance than 1. -/
theorem normalize_iff (some_row : data ≠ []) (rect : ∀ row ∈ data, row.length = d) :
    (normalize sqrt data = .error invalid ∨ ∃ out, normalize sqrt data = .ok out ∧ Standardised sqrt d data out) ↔
      (∃ j < d, Constant data j ∧ mean data j ≠ 0) ∨
        ∀ j < d, ¬ Constant data j → mean data j ≠ 0 ∨ variance data j = 1 := by
  by_cases bad : ∃ j < d, Constant data j ∧ mean data j ≠ 0
  · exact iff_of_true (.inl (normalize_throws sqrt some_row rect bad)) (.inl bad)
  · have fine : ∀ j < d, ¬ (Constant data j ∧ mean data j ≠ 0) := fun j bound here => bad ⟨j, bound, here⟩
    have done := normalize_ok sqrt some_row rect fine
    rw [done, or_iff_right nofun, or_iff_right bad]
    constructor
    · rintro ⟨out, same, standard⟩ j bound varies
      cases same
      exact (standardised_iff sqrt some_row bound varies).mp (standard j bound varies)
    · intro condition
      exact ⟨_, rfl, fun j bound varies => (standardised_iff sqrt some_row bound varies).mpr (condition j bound varies)⟩

end Whole

noncomputable def realSqrt : Sqrt ℝ where
  toRoot := NormalScaler.realRoot
  nonneg x _ := Real.sqrt_nonneg x

def pairs : List (List ℝ) := [[1, 0], [3, 0]]

theorem pairs_normalised :
    (normalize realSqrt pairs = .error invalid ∨
        ∃ out, normalize realSqrt pairs = .ok out ∧ Standardised realSqrt 2 pairs out) ↔
      (∃ j < 2, Constant pairs j ∧ mean pairs j ≠ 0) ∨
        ∀ j < 2, ¬ Constant pairs j → mean pairs j ≠ 0 ∨ variance pairs j = 1 :=
  normalize_iff realSqrt (by simp [pairs]) (by simp [pairs])

local instance two_atLeastTwo : Nat.AtLeastTwo 2 := ⟨le_rfl⟩

def around : List (List ℝ) := [[-2], [2]]

theorem around_left : normalize realSqrt around = .ok around ∧ ¬ Constant around 0 ∧ variance around 0 = 4 ∧
    ¬ Standardised realSqrt 1 around around := by
  have centred : mean around 0 = 0 := by
    norm_num [mean, column, around, Moments.mean, Moments.of]
  have wide : variance around 0 = 4 := by
    norm_num [variance, column, around, Moments.variance, Moments.meanSq, Moments.mean, Moments.of]
  have varies : ¬ Constant around 0 := by
    norm_num [Constant, column, around]
  have fine : ∀ j < 1, ¬ (Constant around j ∧ mean around j ≠ 0) := by
    simpa using fun _ => centred
  have done := normalize_ok realSqrt (d := 1) (by simp [around]) (by simp [around]) fine
  have same : scaledRows realSqrt 1 around = around := by
    have still (x : ℝ) : scaled (mean around) (sd realSqrt around) 0 x = x := if_neg (not_not.mpr centred)
    change List.map _ [[-2], [2]] = [[-2], [2]]
    simp [vec, still]
  refine ⟨done.trans (congrArg _ same), varies, wide, fun standard => ?_⟩
  have one := (standard 0 Nat.one_pos varies).2.2
  rw [wide] at one
  norm_num at one

end DenseScaling

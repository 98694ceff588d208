import Cirrus.SparseLRModel
import Cirrus.Lib.Loops
import Mathlib.Algebra.Order.Field.Basic
import Mathlib.Order.Bounds.Basic
import Mathlib.Data.Set.Finite.Lemmas
import Mathlib.Tactic.Ring
import Mathlib.Tactic.Linarith

/-!
`SparseDataset::normalize`, which brings every column of a sparse dataset to the
range from 0 to 1. The extremes of a column start from 0 and from the largest
float, so that 0 counts as a value of every column when the maximum is taken.
-/
namespace SparseScaling
open SparseLR Loops
variable {F : Type}

section Program
variable [Field F] [LinearOrder F]

/-- One entry in the first pass; the file is compiled with `DEBUG`. -/
def seeEntry (hashSize : UInt64) (extremes : List F × List F) (v : Int32 × F) : Except Fault (List F × List F) := do
  let index := cell v.1
  if hashSize.toNat ≤ index then throw (.exception "Index bigger than capacity")
  let maxValFeature ← setAt extremes.1 index (max v.2 (← at' extremes.1 index))
  let minValFeature ← setAt extremes.2 index (min v.2 (← at' extremes.2 index))
  pure (maxValFeature, minValFeature)

/-- One entry in the second pass. -/
def scaleEntry (extremes : List F × List F) (v : Int32 × F) : Except Fault (Int32 × F) := do
  let hi ← at' extremes.1 (cell v.1)
  let lo ← at' extremes.2 (cell v.1)
  pure (v.1, if hi ≠ lo then (v.2 - lo) / (hi - lo) else v.2)

/-- `largest` is `std::numeric_limits<FEATURE_TYPE>::max()`. -/
def normalize (largest : F) (hashSize : UInt64) (ds : SparseDataset F) : Except Fault (SparseDataset F) := do
  let start := (List.replicate hashSize.toNat 0, List.replicate hashSize.toNat largest)
  let extremes ← ds.data.foldlM (fun extremes w => w.foldlM (seeEntry hashSize) extremes) start
  let data ← ds.data.mapM fun w => w.mapM (scaleEntry extremes)
  pure { ds with data }

end Program

def values (entries : List (Int32 × F)) (column : Nat) : Set F := {x | ∃ v ∈ entries, cell v.1 = column ∧ v.2 = x}

def mapValues (f : Nat → F → F) (ds : SparseDataset F) : SparseDataset F :=
  { ds with data := ds.data.map fun w => w.map fun v => (v.1, f (cell v.1) v.2) }

section Columns
variable [Field F] [LinearOrder F]

structure Scales (column : Set F) (f : F → F) : Prop where
  affine : column.Nontrivial → ∃ a b, 0 < a ∧ ∀ x, f x = a * x + b
  least : column.Nontrivial → ∀ lo, IsLeast column lo → f lo = 0
  greatest : column.Nontrivial → ∀ hi, IsGreatest column hi → f hi = 1
  constant : column.Subsingleton → ∀ x ∈ column, f x = x

def Scaled (ds out : SparseDataset F) : Prop :=
  ∃ f : Nat → F → F, out = mapValues f ds ∧ ∀ column, Scales (values ds.data.flatten column) (f column)

end Columns

theorem values_nil (column : Nat) : values ([] : List (Int32 × F)) column = ∅ := by
  ext x
  simp [values]

theorem values_concat (seen : List (Int32 × F)) (v : Int32 × F) :
    values (seen ++ [v]) (cell v.1) = insert v.2 (values seen (cell v.1)) := by
  ext x
  simp only [values, List.mem_append, List.mem_singleton, Set.mem_ofPred_eq, Set.mem_insert_iff]
  constructor
  · rintro ⟨e, member | rfl, same, rfl⟩
    · exact .inr ⟨e, member, same, rfl⟩
    · exact .inl rfl
  · rintro (rfl | ⟨e, member, same, rfl⟩)
    · exact ⟨v, .inr rfl, rfl, rfl⟩
    · exact ⟨e, .inl member, same, rfl⟩

theorem values_concat_ne (seen : List (Int32 × F)) {v : Int32 × F} {column : Nat} (other : column ≠ cell v.1) :
    values (seen ++ [v]) column = values seen column := by
  ext x
  simp only [values, List.mem_append, List.mem_singleton, Set.mem_ofPred_eq]
  constructor
  · rintro ⟨e, member | rfl, same, rfl⟩
    · exact ⟨e, member, same, rfl⟩
    · exact absurd same.symm other
  · rintro ⟨e, member, same, rfl⟩
    exact ⟨e, .inl member, same, rfl⟩

section Extremes
variable [Field F] [LinearOrder F] {largest : F} {n : Nat}

def Found (largest : F) (seen : List (Int32 × F)) (hi lo : Nat → F) : Prop :=
  ∀ column, IsGreatest (insert 0 (values seen column)) (hi column) ∧
    IsLeast (insert largest (values seen column)) (lo column)

theorem found_start (largest : F) : Found largest [] (fun _ => 0) (fun _ => largest) := by
  intro column
  simp [values_nil]

theorem Found.see {seen : List (Int32 × F)} {hi lo : Nat → F} (found : Found largest seen hi lo) (v : Int32 × F) :
    Found largest (seen ++ [v]) (Function.update hi (cell v.1) (max v.2 (hi (cell v.1))))
      (Function.update lo (cell v.1) (min v.2 (lo (cell v.1)))) := by
  intro column
  by_cases same : column = cell v.1
  · subst same
    rw [values_concat, Function.update_self, Function.update_self, Set.insert_comm 0, Set.insert_comm largest]
    exact ⟨(found _).1.insert v.2, (found _).2.insert v.2⟩
  · rw [values_concat_ne seen same, Function.update_of_ne same, Function.update_of_ne same]
    exact found column

omit [Field F] in
theorem seeEntry_vec {hashSize : UInt64} {v : Int32 × F} (inside : cell v.1 < hashSize.toNat) (hi lo : Nat → F) :
    seeEntry hashSize (vec hashSize.toNat hi, vec hashSize.toNat lo) v =
      .ok (vec hashSize.toNat (Function.update hi (cell v.1) (max v.2 (hi (cell v.1)))),
        vec hashSize.toNat (Function.update lo (cell v.1) (min v.2 (lo (cell v.1))))) := by
  have greatest : at' (vec hashSize.toNat hi) (cell v.1) = .ok (hi (cell v.1)) := at'_ok.mpr (vec_getElem? inside)
  have least : at' (vec hashSize.toNat lo) (cell v.1) = .ok (lo (cell v.1)) := at'_ok.mpr (vec_getElem? inside)
  have room (f : Nat → F) : cell v.1 < (vec hashSize.toNat f).length := by rwa [vec_length]
  unfold seeEntry
  rw [if_neg (Nat.not_le.mpr inside)]
  simp only [greatest, least, setAt_of_lt (room _), vec_set]
  rfl

theorem extremes_found {hashSize : UInt64} {rows : List (List (Int32 × F))}
    (inside : ∀ v ∈ rows.flatten, cell v.1 < hashSize.toNat) (largest : F) :
    ∃ hi lo : Nat → F,
      rows.foldlM (fun extremes w => w.foldlM (seeEntry hashSize) extremes)
          (List.replicate hashSize.toNat 0, List.replicate hashSize.toNat largest) =
        .ok (vec hashSize.toNat hi, vec hashSize.toNat lo) ∧ Found largest rows.flatten hi lo := by
  have zeros : List.replicate hashSize.toNat (0 : F) = vec hashSize.toNat fun _ => 0 := by simp [vec]
  have larges : List.replicate hashSize.toNat largest = vec hashSize.toNat fun _ => largest := by simp [vec]
  obtain ⟨_, done, hi, lo, rfl, found⟩ :=
    foldlM_gives (f := seeEntry hashSize) (l := rows.flatten)
    (s := (vec hashSize.toNat fun _ => (0 : F), vec hashSize.toNat fun _ => largest))
    (P := fun seen s => ∃ hi lo, s = (vec hashSize.toNat hi, vec hashSize.toNat lo) ∧ Found largest seen hi lo)
    (by
      rintro seen v here _ ⟨hi, lo, rfl, found⟩
      exact ⟨_, seeEntry_vec (inside v (mem_of_here here)) hi lo, _, _, rfl, found.see v⟩)
    ⟨_, _, rfl, found_start largest⟩
  refine ⟨hi, lo, ?_, found⟩
  rw [zeros, larges, ← foldlM_flatMap (fun w => w), List.flatMap_id']
  exact done

/-- The function that the second pass applies. -/
def scale (hi lo x : F) : F := if hi ≠ lo then (x - lo) / (hi - lo) else x

theorem scaleEntry_vec {v : Int32 × F} (inside : cell v.1 < n) (hi lo : Nat → F) :
    scaleEntry (vec n hi, vec n lo) v = .ok (v.1, scale (hi (cell v.1)) (lo (cell v.1)) v.2) := by
  have greatest : at' (vec n hi) (cell v.1) = .ok (hi (cell v.1)) := at'_ok.mpr (vec_getElem? inside)
  have least : at' (vec n lo) (cell v.1) = .ok (lo (cell v.1)) := at'_ok.mpr (vec_getElem? inside)
  simp only [scaleEntry, greatest, least]
  rfl

theorem normalize_ok {ds : SparseDataset F} {hashSize : UInt64}
    (inside : ∀ v ∈ ds.data.flatten, cell v.1 < hashSize.toNat) (largest : F) :
    ∃ hi lo : Nat → F, Found largest ds.data.flatten hi lo ∧
      normalize largest hashSize ds = .ok (mapValues (fun column => scale (hi column) (lo column)) ds) := by
  obtain ⟨hi, lo, done, found⟩ := extremes_found inside largest
  refine ⟨hi, lo, found, ?_⟩
  have rows : ds.data.mapM (fun w => w.mapM (scaleEntry (vec hashSize.toNat hi, vec hashSize.toNat lo))) =
      .ok (ds.data.map fun w => w.map fun v => (v.1, scale (hi (cell v.1)) (lo (cell v.1)) v.2)) :=
    mapM_pure fun w here => mapM_pure fun v member =>
      scaleEntry_vec (inside v (List.mem_flatten.mpr ⟨w, here, member⟩)) hi lo
  unfold normalize
  rw [bind_of_ok done, bind_of_ok rows]
  rfl

end Extremes

theorem mapValues_eq_iff {f g : Nat → F → F} {ds : SparseDataset F} :
    mapValues f ds = mapValues g ds ↔ ∀ column, ∀ x ∈ values ds.data.flatten column, f column x = g column x := by
  simp only [mapValues, SparseDataset.mk.injEq, and_true, List.map_inj_left, Prod.mk.injEq, true_and]
  constructor
  · rintro same column x ⟨v, member, rfl, rfl⟩
    obtain ⟨w, here, member⟩ := List.mem_flatten.mp member
    exact same w here v member
  · intro same w here v member
    exact same _ _ ⟨v, List.mem_flatten.mpr ⟨w, here, member⟩, rfl, rfl⟩

theorem finite_values (entries : List (Int32 × F)) (column : Nat) : (values entries column).Finite := by
  apply (List.finite_toSet (entries.map Prod.snd)).subset
  rintro x ⟨v, member, _, rfl⟩
  exact List.mem_map_of_mem member

section Range
variable [Field F] [LinearOrder F] {column : Set F} {hi lo largest : F}

omit [Field F] in
theorem isLeast_of_finite (some_value : column.Nonempty) (finite : ∀ x ∈ column, x ≤ largest)
    (least : IsLeast (insert largest column) lo) : IsLeast column lo := by
  obtain ⟨x, member⟩ := some_value
  refine ⟨?_, fun y here => least.2 (.inr here)⟩
  rcases least.1 with rfl | here
  · have below := least.2 (.inr member)
    rwa [le_antisymm below (finite x member)]
  · exact here

theorem isGreatest_of_nonneg {x : F} (member : x ∈ column) (nonneg : 0 ≤ x)
    (greatest : IsGreatest (insert 0 column) hi) : IsGreatest column hi := by
  refine ⟨?_, fun y here => greatest.2 (.inr here)⟩
  rcases greatest.1 with rfl | here
  · have below := greatest.2 (.inr member)
    rwa [← le_antisymm below nonneg]
  · exact here

variable [IsStrictOrderedRing F]

theorem scales_of_nonneg {x : F} (member : x ∈ column) (nonneg : 0 ≤ x)
    (greatest : IsGreatest (insert 0 column) hi) (least : IsLeast column lo) : Scales column (scale hi lo) := by
  have greatest := isGreatest_of_nonneg member nonneg greatest
  have wide (distinct : column.Nontrivial) : lo < hi := by
    obtain ⟨y, here, z, there, apart⟩ := distinct
    rcases lt_or_gt_of_ne apart with less | less
    · exact lt_of_le_of_lt (least.2 here) (lt_of_lt_of_le less (greatest.2 there))
    · exact lt_of_le_of_lt (least.2 there) (lt_of_lt_of_le less (greatest.2 here))
  refine ⟨?_, ?_, ?_, ?_⟩
  · intro distinct
    have positive := sub_pos.mpr (wide distinct)
    refine ⟨1 / (hi - lo), -lo / (hi - lo), one_div_pos.mpr positive, fun y => ?_⟩
    rw [scale, if_pos (wide distinct).ne']
    ring
  · intro distinct lo' least'
    rw [least'.unique least, scale, if_pos (wide distinct).ne', sub_self, zero_div]
  · intro distinct hi' greatest'
    rw [greatest'.unique greatest, scale, if_pos (wide distinct).ne']
    exact div_self (sub_pos.mpr (wide distinct)).ne'
  · intro single y here
    rw [scale, if_neg (not_not.mpr (single greatest.1 least.1))]

/-- A column of negative values is brought to a range that ends before 1, or changed where it is constant. -/
theorem exists_nonneg_of_scales (some_value : column.Nonempty) (finite : column.Finite)
    (greatest : IsGreatest (insert 0 column) hi) (least : IsLeast column lo) {f : F → F} (scales : Scales column f)
    (applied : ∀ x ∈ column, f x = scale hi lo x) : ∃ x ∈ column, 0 ≤ x := by
  by_contra negative
  push Not at negative
  have zero : hi = 0 := by
    rcases greatest.1 with same | here
    · exact same
    · exact absurd (greatest.2 (.inl rfl)) (not_le.mpr (negative hi here))
  have below := negative lo least.1
  obtain ⟨top, here, above⟩ := Set.exists_max_image column id finite some_value
  have here_applied := applied top here
  rw [zero, scale, if_pos below.ne'] at here_applied
  rcases column.subsingleton_or_nontrivial with single | distinct
  · rw [scales.constant single top here, single here least.1, sub_self, zero_div] at here_applied
    exact below.ne here_applied
  · rw [scales.greatest distinct top ⟨here, above⟩, eq_comm, div_eq_one_iff_eq (by linarith)] at here_applied
    linarith [negative top here]

/-- Scaled are the datasets in which no column has negative values only. -/
theorem normalize_scales_iff (largest : F) (hashSize : UInt64) (ds : SparseDataset F)
    (finite : ∀ v ∈ ds.data.flatten, v.2 ≤ largest) (inside : ∀ v ∈ ds.data.flatten, cell v.1 < hashSize.toNat) :
    (∃ out, normalize largest hashSize ds = .ok out ∧ Scaled ds out) ↔
      ∀ column, (values ds.data.flatten column).Nonempty → ∃ x ∈ values ds.data.flatten column, 0 ≤ x := by
  obtain ⟨hi, lo, found, done⟩ := normalize_ok inside largest
  have least (column) (some_value : (values ds.data.flatten column).Nonempty) :
      IsLeast (values ds.data.flatten column) (lo column) := by
    apply isLeast_of_finite some_value _ (found column).2
    rintro x ⟨v, member, _, rfl⟩
    exact finite v member
  constructor
  · rintro ⟨out, normalized, f, rfl, scales⟩ column some_value
    rw [done, Except.ok.injEq, mapValues_eq_iff] at normalized
    exact exists_nonneg_of_scales some_value (finite_values _ _) (found column).1 (least column some_value)
      (scales column) fun x here => (normalized column x here).symm
  · intro nonneg
    refine ⟨_, done, _, rfl, fun column => ?_⟩
    rcases (values ds.data.flatten column).eq_empty_or_nonempty with none | some_value
    · rw [none]
      exact ⟨fun two => absurd two Set.not_nontrivial_empty, fun two => absurd two Set.not_nontrivial_empty,
        fun two => absurd two Set.not_nontrivial_empty, nofun⟩
    · obtain ⟨x, member, positive⟩ := nonneg column some_value
      exact scales_of_nonneg member positive (found column).1 (least column some_value)

end Range

def floatMax : ℚ := 340282346638528859811704183484516925440

def mixedSigns : SparseDataset ℚ where
  data := [[(0, -1), (2, 5)], [(0, 3)]]
  labels := [0, 1]

theorem mixedSigns_scales :
    (∃ out, normalize floatMax 4 mixedSigns = .ok out ∧ Scaled mixedSigns out) ↔
      ∀ column, (values mixedSigns.data.flatten column).Nonempty →
        ∃ x ∈ values mixedSigns.data.flatten column, 0 ≤ x :=
  normalize_scales_iff floatMax 4 mixedSigns (by decide +kernel) (by decide +kernel)

def negatives : SparseDataset ℚ where
  data := [[(0, -2)], [(0, -1)]]
  labels := [0, 1]

theorem negatives_halfway : ∃ out, normalize floatMax 1 negatives = .ok out ∧
    out.data = [[(0, 0)], [(0, 1 / 2)]] ∧ ¬ Scaled negatives out := by
  have done : (normalize floatMax 1 negatives).toOption.map SparseDataset.data = some [[(0, 0)], [(0, 1 / 2)]] := by
    decide +kernel
  cases normalized : normalize floatMax 1 negatives with
  | error fault =>
    rw [normalized] at done
    cases done
  | ok out =>
    have data : out.data = [[(0, 0)], [(0, 1 / 2)]] := by simpa [normalized, Except.toOption] using done
    refine ⟨out, rfl, data, ?_⟩
    rintro ⟨f, rfl, scales⟩
    have zero : cell 0 = 0 := rfl
    have column : values negatives.data.flatten 0 = {-2, -1} := by
      ext x
      simp [values, negatives, zero, eq_comm]
    have greatest : IsGreatest (values negatives.data.flatten 0) (-1) := by
      rw [column]
      constructor <;> simp
    have distinct : (values negatives.data.flatten 0).Nontrivial := by
      rw [column]
      exact ⟨-2, by simp, -1, by simp, by decide⟩
    have one := (scales 0).greatest distinct (-1) greatest
    simp [mapValues, negatives, zero, one] at data

end SparseScaling

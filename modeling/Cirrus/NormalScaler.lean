import Cirrus.LambdaData
import Cirrus.Lib.Loops
import Cirrus.Lib.Moments
import Mathlib.Analysis.Real.Sqrt

/-!
`normal_scaler`: each chunk's sums by column, the sums of the whole dataset, the
standard deviation and the mean that each chunk gets back, and the scaling.
-/
namespace NormalScaler
open LambdaData
variable {C K F : Type}

structure Root (F : Type) [Field F] [LinearOrder F] where
  sqrt : F → F
  square : ∀ x, 0 ≤ x → sqrt x * sqrt x = x

/-- The input objects as `get_data_from_s3` decodes them, the objects `_bounds` and `_final_bounds`, and the output bucket. -/
structure Store (C F : Type) where
  data : C → Rows Int F
  bounds : C → Option (Dict Text (Moments F))
  finalBounds : C → Option (Dict Text (F × F))
  output : C → Option (Rows Text F)

section Ranges
variable [DecidableEq K] [Semiring F]

/-- The three dictionaries of `get_data_ranges` side by side. -/
def addValue (ranges : Dict K (Moments F)) (e : K × F) : Dict K (Moments F) :=
  let ranges := if e.1 ∈ ranges.keys then ranges else ranges.set e.1 Moments.zero
  ranges.set e.1 (((ranges.get? e.1).getD Moments.zero).add (Moments.one e.2))

def getDataRanges (data : Rows K F) : Dict K (Moments F) :=
  data.foldl (fun ranges row => row.foldl addValue ranges) Dict.empty

/-- The sums of a column are there already, or are those of the object. -/
def addRange (range : Option (Moments F)) (m : Moments F) : Moments F :=
  match range with
  | some range => range.add m
  | none => m

def addMap (fRanges localMap : Dict K (Moments F)) : Dict K (Moments F) :=
  localMap.entries.foldl (fun fRanges e => fRanges.set e.1 (addRange (fRanges.get? e.1) e.2)) fRanges

def getBounds (s : Store C F) (chunk : C) : Except Raised (Dict Text (Moments F)) :=
  match s.bounds chunk with
  | some bounds => .ok bounds
  | none => .error .noSuchKey

def getGlobalMap (objects : List C) (s : Store C F) : Except Raised (Dict Text (Moments F)) :=
  objects.foldlM (fun fRanges chunk => do
    let localMap ← getBounds s chunk
    pure (addMap fRanges localMap)) Dict.empty

end Ranges

section Scaler
variable [Field F] [LinearOrder F] [DecidableEq C]

local instance epsilon_atLeastTwo : Nat.AtLeastTwo 10000 := ⟨by decide⟩

def epsilon : F := 1 / 10000

/-- `diff ** .5`. A negative number has no such power. -/
def power (root : Root F) (diff : F) : Except Raised F := if diff < 0 then .error .valueError else .ok (root.sqrt diff)

def statistic (root : Root F) (m : Moments F) : Except Raised (F × F) := do
  if m.count = 0 then throw .zeroDivisionError
  let diff := m.meanSq - m.mean ^ 2
  let stdDev ← if epsilon < |diff| then power root diff else pure 0
  pure (stdDev, m.mean)

def updateLocalMaps (root : Root F) (objects : List C) (fRanges : Dict Text (Moments F)) (s : Store C F) :
    Except Raised (Store C F) :=
  objects.foldlM (fun s chunk => do
    let localMap ← getBounds s chunk
    let entries ← localMap.keys.mapM fun idx => do
      let range ← lookup fRanges idx
      let stat ← statistic root range
      pure (idx, stat)
    pure { s with
      finalBounds := Function.update s.finalBounds chunk (some (Dict.ofList entries))
      bounds := Function.update s.bounds chunk none }) s

def scaled (stat : F × F) (val : F) : F := if stat.1 ≠ 0 then (val - stat.2) / stat.1 else 0

def scaleData (data : Rows Int F) (globalMap : Dict Text (F × F)) : Except Raised (Rows Text F) :=
  data.mapM fun row => row.mapM fun (idxT, val) => do
    let idx := str idxT
    let stat ← lookup globalMap idx
    pure (idx, scaled stat val)

def localRange (s : Store C F) (chunk : C) : Store C F × Except Raised Unit :=
  ({ s with bounds := Function.update s.bounds chunk (some ((getDataRanges (s.data chunk)).mapKeys str str_injective)) },
    .ok ())

def localScale (s : Store C F) (chunk : C) : Store C F × Except Raised Unit :=
  match s.finalBounds chunk with
  | none => (s, .error .noSuchKey)
  | some bounds =>
    match scaleData (s.data chunk) bounds with
    | .ok rows => ({ s with output := Function.update s.output chunk (some rows) }, .ok ())
    | .error fault => (s, .error fault)

/-- The scaler of the objects that it is given. -/
def normalScaler (root : Root F) (objects : List C) (dryRun : Bool) (s : Store C F) : Except Raised (Store C F) := do
  let s := launchThreads localRange objects s
  let fRanges ← getGlobalMap objects s
  let s ← updateLocalMaps root objects fRanges s
  let s := if dryRun then s else launchThreads localScale objects s
  pure (objects.foldl (fun s chunk => { s with finalBounds := Function.update s.finalBounds chunk none }) s)

end Scaler

section Totals
variable [DecidableEq K]

def valuesOf (entries : List (K × F)) (k : K) : List F := (entries.filter fun e => e.1 = k).map Prod.snd

theorem valuesOf_append (entries entries' : List (K × F)) (k : K) :
    valuesOf (entries ++ entries') k = valuesOf entries k ++ valuesOf entries' k := by
  unfold valuesOf
  rw [List.filter_append, List.map_append]

theorem valuesOf_perm {entries entries' : List (K × F)} (same : entries.Perm entries') (k : K) :
    (valuesOf entries k).Perm (valuesOf entries' k) := (same.filter _).map _

theorem mem_valuesOf {entries : List (K × F)} {k : K} {v : F} : v ∈ valuesOf entries k ↔ (k, v) ∈ entries := by
  unfold valuesOf
  rw [List.mem_map]
  constructor
  · rintro ⟨e, member, rfl⟩
    obtain ⟨inside, here⟩ := List.mem_filter.mp member
    rw [← of_decide_eq_true here]
    exact inside
  · exact fun member => ⟨(k, v), List.mem_filter.mpr ⟨member, decide_eq_true rfl⟩, rfl⟩

theorem valuesOf_map {K' : Type} [DecidableEq K'] {f : K → K'} (injective : Function.Injective f) (g : K → F → F)
    (entries : List (K × F)) (k : K) :
    valuesOf (entries.map fun e => (f e.1, g e.1 e.2)) (f k) = (valuesOf entries k).map (g k) := by
  induction entries with
  | nil => rfl
  | cons e entries ih =>
    unfold valuesOf at ih ⊢
    rw [List.map_cons]
    by_cases here : e.1 = k
    · rw [List.filter_cons_of_pos (by simp [here]), List.filter_cons_of_pos (by simp [here]), List.map_cons, ih,
        List.map_cons, List.map_cons, here]
    · have other : ¬ f e.1 = f k := fun same => here (injective same)
      rw [List.filter_cons_of_neg (by simpa using other), List.filter_cons_of_neg (by simpa using here), ih]

variable [Semiring F]

def Totals (ranges : Dict K (Moments F)) (entries : List (K × F)) : Prop :=
  ∀ k, ranges.get? k = if valuesOf entries k = [] then none else some (Moments.of (valuesOf entries k))

theorem totals_empty : Totals (Dict.empty : Dict K (Moments F)) [] := fun _ => rfl

theorem Totals.perm {ranges : Dict K (Moments F)} {entries entries' : List (K × F)} (totals : Totals ranges entries)
    (same : entries.Perm entries') : Totals ranges entries' := by
  intro k
  have values := valuesOf_perm same k
  rw [totals k, Moments.of_perm values]
  exact if_congr ⟨fun none => (none ▸ values).symm.eq_nil, fun none => (none ▸ values).eq_nil⟩ rfl rfl

theorem Totals.getD {ranges : Dict K (Moments F)} {entries : List (K × F)} (totals : Totals ranges entries) (k : K) :
    (ranges.get? k).getD Moments.zero = Moments.of (valuesOf entries k) := by
  rw [totals k]
  split
  next none =>
    rw [none]
    rfl
  next => rfl

theorem addValue_get? (ranges : Dict K (Moments F)) (e : K × F) : (addValue ranges e).get? =
    Function.update ranges.get? e.1 (some (((ranges.get? e.1).getD Moments.zero).add (Moments.one e.2))) := by
  unfold addValue
  dsimp only
  rw [Dict.get?_set]
  split
  next => rfl
  next absent =>
    rw [Dict.get?_set, Function.update_idem, Function.update_self, Dict.get?_of_not_mem absent]
    rfl

theorem Totals.addValue {ranges : Dict K (Moments F)} {entries : List (K × F)} (totals : Totals ranges entries)
    (e : K × F) : Totals (NormalScaler.addValue ranges e) (entries ++ [e]) := by
  intro k
  rw [addValue_get?, valuesOf_append, totals.getD]
  by_cases here : k = e.1
  · have one : valuesOf [e] k = [e.2] := by
      unfold valuesOf
      rw [List.filter_cons_of_pos (by simp [here])]
      rfl
    rw [one, if_neg (by simp), Moments.of_append, Moments.of_singleton, here, Function.update_self]
  · have none : valuesOf [e] k = [] := by
      unfold valuesOf
      rw [List.filter_cons_of_neg (by simpa using fun same => here same.symm)]
      rfl
    rw [none, List.append_nil, Function.update_of_ne here, totals k]

theorem getDataRanges_totals (data : Rows K F) : Totals (getDataRanges data) data.flatten := by
  have run : ∀ (todo seen : List (K × F)) (ranges : Dict K (Moments F)), Totals ranges seen →
      Totals (todo.foldl NormalScaler.addValue ranges) (seen ++ todo) := by
    intro todo
    induction todo with
    | nil =>
      intro seen ranges totals
      rw [List.append_nil]
      exact totals
    | cons e todo ih =>
      intro seen ranges totals
      have next := ih (seen ++ [e]) _ (totals.addValue e)
      rw [List.append_assoc] at next
      exact next
  unfold getDataRanges
  rw [← List.foldl_flatten]
  exact run data.flatten [] Dict.empty totals_empty

theorem Totals.addMap {fRanges localMap : Dict K (Moments F)} {entries entries' : List (K × F)}
    (totals : Totals fRanges entries) (more : Totals localMap entries') :
    Totals (NormalScaler.addMap fRanges localMap) (entries ++ entries') := by
  intro k
  unfold NormalScaler.addMap
  rw [Dict.get?_foldl_combine, valuesOf_append, more k]
  by_cases none' : valuesOf entries' k = []
  · rw [if_pos none', none', List.append_nil]
    exact totals k
  · rw [if_neg none', if_neg (by simp [none']), Moments.of_append]
    dsimp only
    rw [totals k]
    by_cases none : valuesOf entries k = []
    · rw [if_pos none, none, Moments.of_nil, Moments.zero_add]
      rfl
    · rw [if_neg none]
      rfl

theorem Totals.mapKeys {ranges : Dict Int (Moments F)} {entries : List (Int × F)} (totals : Totals ranges entries) :
    Totals (ranges.mapKeys str str_injective) (entries.map fun e => (str e.1, e.2)) := by
  intro text
  by_cases column : ∃ idx, text = str idx
  · obtain ⟨idx, rfl⟩ := column
    have same := valuesOf_map str_injective (fun _ v => v) entries idx
    rw [List.map_id'] at same
    rw [Dict.get?_mapKeys, same]
    exact totals idx
  · have none : valuesOf (entries.map fun e => (str e.1, e.2)) text = [] := by
      rw [List.eq_nil_iff_forall_not_mem]
      intro v member
      obtain ⟨e, _, same⟩ := List.mem_map.mp (mem_valuesOf.mp member)
      exact column ⟨e.1, (Prod.mk.inj same).1.symm⟩
    rw [if_pos none]
    apply Dict.get?_of_not_mem
    rw [Dict.keys_mapKeys, List.mem_map]
    rintro ⟨idx, _, same⟩
    exact column ⟨idx, same.symm⟩

end Totals

section Run

def textEntries (data : Rows Int F) : List (Text × F) := data.flatten.map fun e => (str e.1, e.2)

theorem valuesOf_textEntries (data : Rows Int F) (idx : Int) :
    valuesOf (textEntries data) (str idx) = valuesOf data.flatten idx := by
  have same := valuesOf_map str_injective (fun _ v => v) data.flatten idx
  rw [List.map_id'] at same
  exact same

section Deletion
variable [DecidableEq C]

theorem output_kept (objects : List C) (s : Store C F) :
    (objects.foldl (fun s chunk => { s with finalBounds := Function.update s.finalBounds chunk none }) s).output = s.output := by
  induction objects generalizing s with
  | nil => rfl
  | cons chunk objects ih => exact ih { s with finalBounds := Function.update s.finalBounds chunk none }

end Deletion

variable [Field F]

def localMap (data : Rows Int F) : Dict Text (Moments F) := (getDataRanges data).mapKeys str str_injective

theorem localMap_totals (data : Rows Int F) : Totals (localMap data) (textEntries data) := (getDataRanges_totals data).mapKeys

theorem getGlobalMap_totals {objects : List C} {s : Store C F}
    (bounds : ∀ chunk ∈ objects, s.bounds chunk = some (localMap (s.data chunk))) : ∃ fRanges,
      getGlobalMap objects s = .ok fRanges ∧ Totals fRanges (objects.flatMap fun chunk => textEntries (s.data chunk)) := by
  apply Loops.foldlM_gives (P := fun seen fRanges => Totals fRanges (seen.flatMap fun chunk => textEntries (s.data chunk)))
  · intro seen chunk here fRanges totals
    have found : getBounds s chunk = .ok (localMap (s.data chunk)) := by
      unfold getBounds
      rw [bounds chunk (Loops.mem_of_here here)]
    refine ⟨addMap fRanges (localMap (s.data chunk)), Loops.bind_of_ok found _, ?_⟩
    rw [List.flatMap_append, List.flatMap_singleton]
    exact totals.addMap (localMap_totals (s.data chunk))
  · exact totals_empty

variable [DecidableEq C]

theorem ranges_launched (objects : List C) (s : Store C F) :
    (launchThreads localRange objects s).data = s.data ∧
      ∀ chunk ∈ objects, (launchThreads localRange objects s).bounds chunk = some (localMap (s.data chunk)) := by
  apply launchThreads_gives (P := fun (seen : List C) (u : Store C F) =>
    u.data = s.data ∧ ∀ chunk ∈ seen, u.bounds chunk = some (localMap (s.data chunk)))
  · intro seen chunk _ u ⟨same, written⟩
    refine ⟨same, fun other member => ?_⟩
    unfold localRange
    dsimp only
    by_cases here : other = chunk
    · rw [here, Function.update_self, same]
      rfl
    · rw [Function.update_of_ne here]
      rcases List.mem_append.mp member with earlier | last
      · exact written other earlier
      · exact (here (List.mem_singleton.mp last)).elim
  · exact ⟨rfl, nofun⟩

variable [LinearOrder F]

/-- What `update_local_maps` makes of the values of a column. -/
def standard (root : Root F) (values : List F) : F × F :=
  (if epsilon < (Moments.of values).variance then root.sqrt (Moments.of values).variance else 0, (Moments.of values).mean)

def Standards (root : Root F) (all : List (Text × F)) (data : Rows Int F) (stats : Dict Text (F × F)) : Prop :=
  ∀ e ∈ data.flatten, stats.get? (str e.1) = some (standard root (valuesOf all (str e.1)))

def scaleRow (root : Root F) (all : List (Text × F)) (row : List (Int × F)) : List (Text × F) :=
  row.map fun e => (str e.1, scaled (standard root (valuesOf all (str e.1))) e.2)

theorem scaleData_ok {root : Root F} {all : List (Text × F)} {data : Rows Int F} {stats : Dict Text (F × F)}
    (standards : Standards root all data stats) : scaleData data stats = .ok (data.map (scaleRow root all)) := by
  unfold scaleData
  apply Loops.mapM_pure
  intro row member
  apply Loops.mapM_pure
  intro e inside
  have found := standards e (List.mem_flatten.mpr ⟨row, member, inside⟩)
  dsimp only
  rw [lookup_eq_ok.mpr found]
  rfl

theorem scales_launched {root : Root F} {objects : List C} {all : List (Text × F)} {s : Store C F}
    (final : ∀ chunk ∈ objects, ∃ stats, s.finalBounds chunk = some stats ∧ Standards root all (s.data chunk) stats) :
    ∀ chunk ∈ objects, (launchThreads localScale objects s).output chunk = some ((s.data chunk).map (scaleRow root all)) := by
  have kept : (launchThreads localScale objects s).data = s.data ∧
      (launchThreads localScale objects s).finalBounds = s.finalBounds ∧
      ∀ chunk ∈ objects, (launchThreads localScale objects s).output chunk =
        some ((s.data chunk).map (scaleRow root all)) := by
    apply launchThreads_gives (P := fun (seen : List C) (u : Store C F) => u.data = s.data ∧
      u.finalBounds = s.finalBounds ∧ ∀ chunk ∈ seen, u.output chunk = some ((s.data chunk).map (scaleRow root all)))
    · intro seen chunk here u ⟨data, bounds, before⟩
      obtain ⟨stats, found, standards⟩ := final chunk (Loops.mem_of_here here)
      have scales : localScale u chunk = ({ u with
          output := Function.update u.output chunk (some ((s.data chunk).map (scaleRow root all))) }, .ok ()) := by
        unfold localScale
        rw [bounds, found]
        dsimp only
        rw [data, scaleData_ok standards]
      rw [scales]
      refine ⟨data, bounds, fun other known => ?_⟩
      by_cases same : other = chunk
      · rw [same]
        exact Function.update_self ..
      · rcases List.mem_append.mp known with earlier | last
        · exact (Function.update_of_ne same ..).trans (before other earlier)
        · exact (same (List.mem_singleton.mp last)).elim
    · exact ⟨rfl, rfl, nofun⟩
  exact kept.2.2

variable [IsStrictOrderedRing F]

/-- The root is never taken of a negative number, and nothing is divided by zero. -/
theorem statistic_ok (root : Root F) {values : List F} (some_value : values ≠ []) :
    statistic root (Moments.of values) = .ok (standard root values) := by
  have count : (Moments.of values).count ≠ 0 := fun none => some_value (List.length_eq_zero_iff.mp none)
  have nonneg := Moments.variance_nonneg values
  unfold statistic standard
  rw [if_neg count]
  change (do
    let stdDev ← if epsilon < |(Moments.of values).variance| then power root (Moments.of values).variance else pure 0
    pure (stdDev, (Moments.of values).mean)) = _
  rw [abs_of_nonneg nonneg]
  unfold power
  rw [if_neg (not_lt.mpr nonneg)]
  split
  · rfl
  · rfl

theorem entries_ok (root : Root F) {fRanges : Dict Text (Moments F)} {all : List (Text × F)} (totals : Totals fRanges all)
    {data : Rows Int F} (part : textEntries data ⊆ all) : ∃ entries,
      ((localMap data).keys.mapM fun idx => (do
        let range ← lookup fRanges idx
        let stat ← statistic root range
        pure (idx, stat) : Except Raised (Text × (F × F)))) = .ok entries ∧ Standards root all data (Dict.ofList entries) := by
  have values : ∀ idx ∈ (localMap data).keys, valuesOf all idx ≠ [] := by
    intro idx member
    obtain ⟨m, found⟩ := Dict.mem_keys.mp member
    rw [localMap_totals data idx] at found
    split at found
    next => cases found
    next some_value =>
      obtain ⟨v, here⟩ := List.exists_mem_of_ne_nil _ some_value
      exact List.ne_nil_of_mem (mem_valuesOf.mpr (part (mem_valuesOf.mp here)))
  refine ⟨_, Loops.mapM_pure (g := fun idx => (idx, standard root (valuesOf all idx))) ?_, ?_⟩
  · intro idx member
    have found : lookup fRanges idx = .ok (Moments.of (valuesOf all idx)) := by
      rw [lookup_eq_ok, totals idx, if_neg (values idx member)]
    rw [Loops.bind_of_ok found, Loops.bind_of_ok (statistic_ok root (values idx member))]
    rfl
  · intro e member
    have distinct : (((localMap data).keys.map fun idx => (idx, standard root (valuesOf all idx))).map Prod.fst).Nodup := by
      rw [List.map_map]
      exact (List.map_id _).symm ▸ (localMap data).nodup
    have column : str e.1 ∈ (localMap data).keys := by
      have some_value : valuesOf (textEntries data) (str e.1) ≠ [] := by
        rw [valuesOf_textEntries]
        exact List.ne_nil_of_mem (mem_valuesOf.mpr member)
      rw [Dict.mem_keys]
      refine ⟨Moments.of (valuesOf (textEntries data) (str e.1)), ?_⟩
      rw [localMap_totals data, if_neg some_value]
    rw [Dict.get?_ofList distinct]
    exact List.mem_map.mpr ⟨str e.1, column, rfl⟩

theorem updateLocalMaps_ok (root : Root F) {objects : List C} (distinct : objects.Nodup) {s : Store C F}
    (bounds : ∀ chunk ∈ objects, s.bounds chunk = some (localMap (s.data chunk))) {fRanges : Dict Text (Moments F)}
    {all : List (Text × F)} (totals : Totals fRanges all) (parts : ∀ chunk ∈ objects, textEntries (s.data chunk) ⊆ all) :
    ∃ t, updateLocalMaps root objects fRanges s = .ok t ∧ t.data = s.data ∧
      ∀ chunk ∈ objects, ∃ stats, t.finalBounds chunk = some stats ∧ Standards root all (s.data chunk) stats := by
  have written : ∃ t, updateLocalMaps root objects fRanges s = .ok t ∧ t.data = s.data ∧
      (∀ chunk ∉ objects, t.bounds chunk = s.bounds chunk) ∧
      ∀ chunk ∈ objects, ∃ stats, t.finalBounds chunk = some stats ∧ Standards root all (s.data chunk) stats := by
    apply Loops.foldlM_gives (P := fun (seen : List C) (t : Store C F) => t.data = s.data ∧
      (∀ chunk ∉ seen, t.bounds chunk = s.bounds chunk) ∧
      ∀ chunk ∈ seen, ∃ stats, t.finalBounds chunk = some stats ∧ Standards root all (s.data chunk) stats)
    · intro seen chunk here t ⟨data, later, earlier⟩
      have member := Loops.mem_of_here here
      have fresh : chunk ∉ seen := by
        have once := distinct.sublist here.sublist
        exact fun again => (List.disjoint_of_nodup_append once) again List.mem_cons_self
      have found : getBounds t chunk = .ok (localMap (s.data chunk)) := by
        unfold getBounds
        rw [later chunk fresh, bounds chunk member]
      obtain ⟨entries, mapped, standards⟩ := entries_ok root totals (parts chunk member)
      refine ⟨_, (Loops.bind_of_ok found _).trans (Loops.bind_of_ok mapped _), data, ?_, ?_⟩
      · intro other absent
        rw [List.mem_append, not_or] at absent
        have different : other ≠ chunk := fun same => absent.2 (same ▸ List.mem_cons_self)
        exact (Function.update_of_ne different ..).trans (later other absent.1)
      · intro other known
        by_cases same : other = chunk
        · rw [same]
          exact ⟨Dict.ofList entries, Function.update_self .., standards⟩
        · rcases List.mem_append.mp known with before | last
          · obtain ⟨stats, final, fits⟩ := earlier other before
            exact ⟨stats, (Function.update_of_ne same ..).trans final, fits⟩
          · exact (same (List.mem_singleton.mp last)).elim
    · exact ⟨rfl, fun _ _ => rfl, nofun⟩
  obtain ⟨t, done, data, _, final⟩ := written
  exact ⟨t, done, data, final⟩

theorem normalScaler_ok (root : Root F) {objects : List C} (distinct : objects.Nodup) (s : Store C F) :
    ∃ fRanges t, getGlobalMap objects (launchThreads localRange objects s) = .ok fRanges ∧
      Totals fRanges (objects.flatMap fun chunk => textEntries (s.data chunk)) ∧
      normalScaler root objects false s = .ok t ∧ ∀ chunk ∈ objects, t.output chunk =
        some ((s.data chunk).map (scaleRow root (objects.flatMap fun chunk => textEntries (s.data chunk)))) := by
  obtain ⟨same, bounds⟩ := ranges_launched objects s
  have bounds' : ∀ chunk ∈ objects, (launchThreads localRange objects s).bounds chunk =
      some (localMap ((launchThreads localRange objects s).data chunk)) := by
    intro chunk member
    rw [same, bounds chunk member]
  obtain ⟨fRanges, global, totals⟩ := getGlobalMap_totals bounds'
  rw [same] at totals
  have parts : ∀ chunk ∈ objects, textEntries ((launchThreads localRange objects s).data chunk) ⊆
      objects.flatMap fun chunk => textEntries (s.data chunk) := by
    intro chunk member e inside
    rw [same] at inside
    exact List.mem_flatMap.mpr ⟨chunk, member, inside⟩
  obtain ⟨u, updated, data, final⟩ := updateLocalMaps_ok root distinct bounds' totals parts
  have final' : ∀ chunk ∈ objects, ∃ stats, u.finalBounds chunk = some stats ∧
      Standards root (objects.flatMap fun chunk => textEntries (s.data chunk)) (u.data chunk) stats := by
    rw [data]
    exact final
  refine ⟨fRanges, _, global, totals, (Loops.bind_of_ok global _).trans (Loops.bind_of_ok updated _), ?_⟩
  intro chunk member
  rw [output_kept]
  have written := scales_launched final' chunk member
  rw [data, same] at written
  exact written

end Run

def scaledRows (objects : List C) (t : Store C F) : Rows Text F := objects.flatMap fun chunk => (t.output chunk).getD []

theorem flatMap_textEntries (objects : List C) (data : C → Rows Int F) :
    (objects.flatMap fun chunk => textEntries (data chunk)) = textEntries (objects.flatMap data) := by
  unfold textEntries
  induction objects with
  | nil => rfl
  | cons chunk objects ih =>
    rw [List.flatMap_cons, List.flatMap_cons, ih, List.flatten_append, List.map_append]

theorem standard_perm [Field F] [LinearOrder F] (root : Root F) {values values' : List F} (same : values.Perm values') :
    standard root values = standard root values' := by
  unfold standard
  rw [Moments.of_perm same]

section Whole
variable [Field F] [LinearOrder F]

theorem scaleRow_perm (root : Root F) {all all' : List (Text × F)} (same : all.Perm all') :
    scaleRow root all = scaleRow root all' := by
  ext1 row
  unfold scaleRow
  apply List.map_congr_left
  intro e _
  rw [standard_perm root (valuesOf_perm same (str e.1))]

theorem valuesOf_scaled (root : Root F) {objects : List C} {data : C → Rows Int F} {dataset : Rows Int F}
    (splits : (objects.flatMap data).Perm dataset) {t : Store C F}
    (written : ∀ chunk ∈ objects, t.output chunk = some ((data chunk).map (scaleRow root (textEntries dataset)))) (idx : Int) :
    (valuesOf (scaledRows objects t).flatten (str idx)).Perm
      ((valuesOf dataset.flatten idx).map (scaled (standard root (valuesOf dataset.flatten idx)))) := by
  have rows : scaledRows objects t = (objects.flatMap data).map (scaleRow root (textEntries dataset)) := by
    unfold scaledRows
    rw [List.map_flatMap]
    apply List.flatMap_congr
    intro chunk member
    rw [written chunk member]
    rfl
  have entries : (scaledRows objects t).flatten = (objects.flatMap data).flatten.map fun e =>
      (str e.1, scaled (standard root (valuesOf dataset.flatten e.1)) e.2) := by
    rw [rows, List.map_flatten]
    unfold scaleRow
    simp only [valuesOf_textEntries]
  rw [entries, valuesOf_map str_injective (fun idx => scaled (standard root (valuesOf dataset.flatten idx)))]
  exact (valuesOf_perm splits.flatten idx).map _

theorem scaled_flat {root : Root F} {values : List F} (flat : ¬ epsilon < (Moments.of values).variance) (x : F) :
    scaled (standard root values) x = 0 := by
  unfold scaled standard
  rw [if_neg flat, if_neg (not_not.mpr rfl)]

variable [IsStrictOrderedRing F]

theorem scaled_wide {root : Root F} {values : List F} (some_value : values ≠ [])
    (wide : epsilon < (Moments.of values).variance) :
    (Moments.of (values.map (scaled (standard root values)))).mean = 0 ∧
      (Moments.of (values.map (scaled (standard root values)))).variance = 1 := by
  have positive : 0 < (Moments.of values).variance := by
    apply lt_trans _ wide
    unfold epsilon
    positivity
  have square := root.square _ positive.le
  have nonzero : root.sqrt (Moments.of values).variance ≠ 0 := by
    intro zero
    rw [zero, zero_mul] at square
    exact positive.ne square
  have same : scaled (standard root values) =
      fun x => (x - (Moments.of values).mean) / root.sqrt (Moments.of values).variance := by
    ext x
    unfold scaled standard
    rw [if_pos wide, if_pos nonzero]
  rw [same]
  exact Moments.standardized some_value square positive.ne'

variable [DecidableEq C]

/-- Every column of a dataset is standardised, however the dataset is split. -/
theorem columns_standardised (root : Root F) {objects : List C} (distinct : objects.Nodup) (s : Store C F)
    {dataset : Rows Int F} (splits : (objects.flatMap s.data).Perm dataset) :
    ∃ fRanges t, getGlobalMap objects (launchThreads localRange objects s) = .ok fRanges ∧
      (∀ idx, fRanges.get? (str idx) = if valuesOf dataset.flatten idx = [] then none
        else some (Moments.of (valuesOf dataset.flatten idx))) ∧
      (∀ idx, 0 ≤ (Moments.of (valuesOf dataset.flatten idx)).variance) ∧
      normalScaler root objects false s = .ok t ∧
      (∀ chunk ∈ objects, t.output chunk = some ((s.data chunk).map (scaleRow root (textEntries dataset)))) ∧
      ∀ idx, valuesOf dataset.flatten idx ≠ [] →
        let column := valuesOf (scaledRows objects t).flatten (str idx)
        (epsilon < (Moments.of (valuesOf dataset.flatten idx)).variance →
          (Moments.of column).mean = 0 ∧ (Moments.of column).variance = 1) ∧
        (¬ epsilon < (Moments.of (valuesOf dataset.flatten idx)).variance → ∀ v ∈ column, v = 0) := by
  have all : (objects.flatMap fun chunk => textEntries (s.data chunk)).Perm (textEntries dataset) := by
    rw [flatMap_textEntries]
    exact splits.flatten.map _
  obtain ⟨fRanges, t, global, totals, done, written⟩ := normalScaler_ok root distinct s
  rw [scaleRow_perm root all] at written
  refine ⟨fRanges, t, global, ?_, fun idx => Moments.variance_nonneg _, done, written, ?_⟩
  · intro idx
    have here := totals.perm all (str idx)
    rw [valuesOf_textEntries] at here
    exact here
  · intro idx some_value
    have values := valuesOf_scaled root splits written idx
    constructor
    · intro wide
      rw [Moments.of_perm values]
      exact scaled_wide some_value wide
    · intro flat v member
      obtain ⟨x, _, rfl⟩ := List.mem_map.mp (values.mem_iff.mp member)
      exact scaled_flat flat x

end Whole

noncomputable def realRoot : Root ℝ where
  sqrt := Real.sqrt
  square _ nonneg := Real.mul_self_sqrt nonneg

theorem two_chunks_standardised : ∃ t : Store (Fin 2) ℝ,
    normalScaler realRoot [1, 0] false
      ⟨fun chunk => if chunk = 0 then [[(7, 1)]] else [[(7, 3)]], fun _ => none, fun _ => none, fun _ => none⟩ = .ok t ∧
    (Moments.of (valuesOf (scaledRows [1, 0] t).flatten (str 7))).mean = 0 ∧
    (Moments.of (valuesOf (scaledRows [1, 0] t).flatten (str 7))).variance = 1 := by
  obtain ⟨fRanges, t, _, _, _, done, _, columns⟩ := columns_standardised realRoot
    (by decide : ([1, 0] : List (Fin 2)).Nodup)
    (⟨fun chunk => if chunk = 0 then [[(7, 1)]] else [[(7, 3)]], fun _ => none, fun _ => none, fun _ => none⟩ :
      Store (Fin 2) ℝ) (List.Perm.swap [(7, 1)] [(7, 3)] [])
  have values : valuesOf ([[(7, 1)], [(7, 3)]] : Rows Int ℝ).flatten 7 = [1, 3] := rfl
  have wide : epsilon < (Moments.of ([1, 3] : List ℝ)).variance := by
    norm_num [epsilon, Moments.of, Moments.variance, Moments.meanSq, Moments.mean]
  have column := columns 7
  rw [values] at column
  exact ⟨t, done, (column (by simp)).1 wide⟩

end NormalScaler

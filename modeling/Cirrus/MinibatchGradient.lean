import Cirrus.Lib.Loops
import Cirrus.SparseLRModel

/-!
The two gradients of `SparseLRModel`: `minibatch_grad` of a model with all its
weights, and `minibatch_grad_sparse` of one that has the weights of a minibatch
only and collects in a vector that it keeps between calls.
-/
namespace SparseLR
open Gradients Loops
variable {F : Type}

def s1 [FloatOps F] (x : F) : Except Fault F :=
  match FloatOps.sigmoid x with
  | some y => .ok y
  | none => .error (.exception "s_1 generated nan/inf")

theorem s1_ok [FloatOps F] {x y : F} : s1 x = .ok y ↔ FloatOps.sigmoid x = some y := by
  rw [s1]
  split <;> simp_all

abbrev Row (F : Type) := List (Int32 × F)

section Gradients
variable [Zero F] [Add F] [Sub F] [Mul F] [OfNat F 2] [FloatOps F]

/-- The loop that stores in `part2`, for each sample, its label less the prediction. -/
def residuals (dot : Row F → Except Fault F) (ds : SparseDataset F) (part2 : List F) :
    Except Fault (List F) :=
  ds.data.zipIdx.foldlM
    (fun part2 sample => do
      let part1 ← dot sample.1
      setAt part2 sample.2 ((← at' ds.labels sample.2) - (← s1 part1)))
    part2

namespace SparseLRModel

/-- A vector without cells gets the ones it is to have. -/
def allocate (v : List F) (n : Except Fault Nat) : Except Fault (List F) :=
  if v.isEmpty then n.map fun n => List.replicate n 0 else .ok v

def ensurePreallocatedVectors (m : SparseLRModel F) (config : Configuration F) :
    Except Fault (SparseLRModel F) := do
  let part3 ← allocate m.part3 (sparseBlock config)
  let part2 ← allocate m.part2 (.ok config.minibatchSize)
  pure { m with uniqueIndices := [], part3 := part3, part2 := part2 }

def sparseDot (weightsSparse : List F) (row : Row F) : Except Fault F :=
  row.foldlM (fun part1 feat => do pure (part1 + feat.2 * (← at' weightsSparse (cell feat.1)))) 0

/-- The features of one sample: each index is listed and its share added to `part3`. -/
def collect (part2 : List F) (s : List Int32 × List F) (sample : Row F × Nat) :
    Except Fault (List Int32 × List F) :=
  sample.1.foldlM
    (fun s feat => do
      let part3 ← addAt s.2 (cell feat.1) (feat.2 * (← at' part2 sample.2))
      pure (s.1 ++ [feat.1], part3))
    s

/-- One turn of the last loop, with `part3` and the entries of the gradient so far. -/
def emit (config : Configuration F) (weightsSparse : List F) (s : List F × Row F) (index : Int32) :
    Except Fault (List F × Row F) := do
  let value ← at' s.1 (cell index)
  if FloatOps.isZero value then pure s else
  let part3 ← setAt s.1 (cell index) 0
  let finalGrad := value + (← at' weightsSparse (cell index)) * 2 * config.epsilon
  if ¬ config.useGradThreshold ∨ (config.useGradThreshold ∧ FloatOps.absGreater finalGrad config.gradThreshold) then
    pure (part3, s.2 ++ [(index, finalGrad)])
  else
    pure (part3, s.2)

def minibatchGradSparse (m : SparseLRModel F) (ds : SparseDataset F) (config : Configuration F) :
    Except Fault (SparseLRModel F × LRSparseGradient F) := do
  let m ← m.ensurePreallocatedVectors config
  let part2 ← residuals (sparseDot m.weightsSparse) ds m.part2
  let (uniqueIndices, part3) ← ds.data.zipIdx.foldlM (collect part2) (m.uniqueIndices, m.part3)
  let (part3, res) ← uniqueIndices.foldlM (emit config m.weightsSparse) (part3, [])
  pure ({ m with uniqueIndices := uniqueIndices, part3 := part3, part2 := part2 }, { weights := res })

def dotProduct (weights : List F) (row : Row F) : Except Fault F :=
  row.foldlM
    (fun res feat =>
      if weights.length ≤ cell feat.1 then .error (.exception "Index too high") else
      if ¬ 0 ≤ feat.1.toInt then
        .error (.assertion "index >= 0 && (uint64_t)index < weights_.size()")
      else do pure (res + feat.2 * (← at' weights (cell feat.1))))
    0

/-- The key of an index in an `std::unordered_map<uint64_t, FEATURE_TYPE>`, and back. -/
def key (index : Int32) : UInt64 := index.toInt64.toUInt64

def ofKey (k : UInt64) : Int32 := k.toInt64.toInt32

/-- The features of one sample, in a map: `part3[index] += value * part2[i]`. -/
def collectInMap (part2 : List F) (part3 : AList fun _ : UInt64 => F) (sample : Row F × Nat) :
    Except Fault (AList fun _ : UInt64 => F) :=
  sample.1.foldlM
    (fun part3 feat => do
      let old := (part3.lookup (key feat.1)).getD 0
      pure (part3.insert (key feat.1) (old + feat.2 * (← at' part2 sample.2))))
    part3

/-- The zeros that are stored in `part2` in the end are those of a variable of this call. -/
def minibatchGrad (m : SparseLRModel F) (ds : SparseDataset F) (config : Configuration F) :
    Except Fault (LRSparseGradient F) := do
  if m.isSparse then throw (.exception "This model is sparse")
  let part2 ← residuals (dotProduct m.weights) ds (List.replicate ds.data.length 0)
  let part3 ← ds.data.zipIdx.foldlM (collectInMap part2) ∅
  let res ← part3.entries.mapM fun v => do
    pure (ofKey v.1, v.2 + (← at' m.weights v.1.toNat) * 2 * config.epsilon)
  pure { weights := res }

end SparseLRModel
end Gradients

section Specification
variable [Zero F] [Add F] [Sub F] [Mul F] [FloatOps F]

def weightAt (v : List F) (index : Int32) : F := v.getD (cell index) 0

def dot (v : List F) (row : Row F) : F :=
  row.foldl (fun part1 feat => part1 + feat.2 * weightAt v feat.1) 0

def residual (v : List F) (ds : SparseDataset F) (i : Nat) : F :=
  ds.labels.getD i 0 - (FloatOps.sigmoid (dot v (ds.data.getD i []))).getD 0

def shares (v : List F) (ds : SparseDataset F) (samples : List (Row F × Nat)) : List (Int32 × F) :=
  samples.flatMap fun sample => sample.1.map fun feat => (feat.1, feat.2 * residual v ds sample.2)

def indices (ds : SparseDataset F) : List Int32 := ds.data.flatten.map (·.1)

def accumulated (v : List F) (ds : SparseDataset F) (start : F) (index : Int32) : F :=
  sumFor start index (shares v ds ds.data.zipIdx)

end Specification

section Dot
variable [Zero F] [Add F] [Mul F] {v : List F}

theorem sparseDot_ends {row : Row F} {x : F} (done : SparseLRModel.sparseDot v row = .ok x) :
    x = dot v row := by
  apply foldlM_ends (P := fun seen (part1 : F) => part1 = dot v seen) ?_ rfl done
  intro seen feat _ s t before one
  obtain ⟨weight, found, one⟩ := ok_of_bind one
  cases one
  rw [at'_ok] at found
  rw [before, dot, dot, List.foldl_concat, weightAt, List.getD, found]
  rfl

theorem dotProduct_ends {row : Row F} {x : F} (done : SparseLRModel.dotProduct v row = .ok x) :
    x = dot v row := by
  apply foldlM_ends (P := fun seen (part1 : F) => part1 = dot v seen) ?_ rfl done
  intro seen feat _ s t before one
  split at one
  · cases one
  · split at one
    · cases one
    · obtain ⟨weight, found, one⟩ := ok_of_bind one
      cases one
      rw [at'_ok] at found
      rw [before, dot, dot, List.foldl_concat, weightAt, List.getD, found]
      rfl

end Dot

section Collecting

theorem residuals_length [Sub F] [FloatOps F] {dotOf : Row F → Except Fault F}
    {ds : SparseDataset F} {part2 part2' : List F}
    (done : residuals dotOf ds part2 = .ok part2') : part2'.length = part2.length := by
  apply foldlM_ends (P := fun _ (now : List F) => now.length = part2.length) ?_ rfl done
  intro seen sample _ s t before one
  obtain ⟨_, _, one⟩ := ok_of_bind one
  obtain ⟨_, _, one⟩ := ok_of_bind one
  obtain ⟨_, _, one⟩ := ok_of_bind one
  obtain ⟨_, rfl⟩ := setAt_ok.mp one
  rw [List.length_set, before]

theorem zipIdx_flatMap {α β : Type} (f : α → List β) (l : List α) (n : Nat) :
    (l.zipIdx n).flatMap (fun a => f a.1) = l.flatMap f := by
  induction l generalizing n with
  | nil => rfl
  | cons a rest ih => rw [List.zipIdx_cons, List.flatMap_cons, List.flatMap_cons, ih]

/-- What `unique_indices` and `part3` hold when these shares have been collected. -/
structure Collected [Add F] (start : List F) (l : List (Int32 × F)) (s : List Int32 × List F) : Prop where
  listed : s.1 = l.map (·.1)
  summed : ∀ index, s.2[cell index]? = start[cell index]?.map fun x => sumFor x index l
  length : s.2.length = start.length
  inside : ∀ e ∈ l, cell e.1 < start.length

theorem Collected.add [Add F] {start : List F} {l : List (Int32 × F)} {s : List Int32 × List F}
    (collected : Collected start l s) {index : Int32} {x : F} {part3 : List F}
    (added : addAt s.2 (cell index) x = .ok part3) :
    Collected start (l ++ [(index, x)]) (s.1 ++ [index], part3) := by
  obtain ⟨y, found, rfl⟩ := addAt_ok.mp added
  have inside := (List.getElem?_eq_some_iff.mp found).1
  rw [collected.summed, Option.map_eq_some_iff] at found
  obtain ⟨x₀, first, rfl⟩ := found
  refine ⟨by simp [collected.listed], ?_, by simp [collected.length], ?_⟩
  · intro other
    rcases Decidable.em (other = index) with rfl | different
    · rw [List.getElem?_set_self inside, first, Option.map_some, sumFor_concat_self]
    · have apart : cell index ≠ cell other := fun same => different (cell_injective same).symm
      rw [List.getElem?_set_ne apart, collected.summed]
      simp only [sumFor_concat_ne _ (Ne.symm different)]
  · intro e member
    rcases List.mem_append.mp member with old | new
    · exact collected.inside e old
    · rw [List.mem_singleton.mp new, ← collected.length]
      exact inside

variable [Zero F] [Add F] [Sub F] [Mul F] [FloatOps F] {v : List F} {ds : SparseDataset F}

theorem residuals_ends {dotOf : Row F → Except Fault F} {part2 part2' : List F}
    (exact_dot : ∀ row x, dotOf row = .ok x → x = dot v row)
    (done : residuals dotOf ds part2 = .ok part2') :
    ∀ i < ds.data.length, part2'[i]? = some (residual v ds i) := by
  have all := foldlM_ends (P := fun seen (part2 : List F) =>
    ∀ i < seen.length, part2[i]? = some (residual v ds i)) ?_ (by simp) done
  · simpa using all
  · intro seen sample here s t before one
    obtain ⟨position, row⟩ := getElem?_of_prefix_zipIdx here
    obtain ⟨part1, dotted, one⟩ := ok_of_bind one
    obtain ⟨label, labelled, one⟩ := ok_of_bind one
    obtain ⟨y, sigmoid, one⟩ := ok_of_bind one
    obtain ⟨inside, rfl⟩ := setAt_ok.mp one
    have here : residual v ds seen.length = label - y := by
      rw [at'_ok, position] at labelled
      rw [s1_ok, exact_dot _ _ dotted] at sigmoid
      simp [residual, List.getD, row, labelled, sigmoid]
    intro i bound
    rw [position]
    rcases Nat.lt_or_eq_of_le (Nat.le_of_lt_succ (by simpa using bound)) with earlier | rfl
    · rw [List.getElem?_set_ne (by omega)]
      exact before i earlier
    · rw [position] at inside
      rw [List.getElem?_set_self inside, here]

theorem collect_ends {start part2 : List F} {s : List Int32 × List F}
    (prepared : ∀ i < ds.data.length, part2[i]? = some (residual v ds i))
    (done : ds.data.zipIdx.foldlM (SparseLRModel.collect part2) ([], start) = .ok s) :
    Collected start (shares v ds ds.data.zipIdx) s := by
  have nothing : Collected start [] ([], start) :=
    ⟨rfl, fun index => by simp, rfl, by simp⟩
  apply foldlM_ends (P := fun seen s => Collected start (shares v ds seen) s) ?_ nothing done
  intro seen sample here s t before one
  obtain ⟨position, row⟩ := getElem?_of_prefix_zipIdx here
  have known := prepared seen.length (List.getElem?_eq_some_iff.mp row).1
  have inner := foldlM_ends (P := fun feats s => Collected start
    (shares v ds seen ++ feats.map fun feat => (feat.1, feat.2 * residual v ds sample.2)) s)
    ?_ (by simpa using before) one
  · simpa [shares] using inner
  · intro feats feat _ s t before one
    obtain ⟨r, residual_here, one⟩ := ok_of_bind one
    obtain ⟨part3, added, one⟩ := ok_of_bind one
    cases one
    rw [at'_ok, position, known, Option.some.injEq] at residual_here
    rw [List.map_append, ← List.append_assoc]
    apply before.add
    rw [position, residual_here]
    exact added

theorem shares_indices : (shares v ds ds.data.zipIdx).map (·.1) = indices ds := by
  rw [shares, List.map_flatMap, indices]
  simp only [List.map_map, Function.comp_def]
  rw [zipIdx_flatMap (fun row : Row F => row.map (·.1)) ds.data 0, List.map_flatten, List.flatMap_def]

end Collecting

section Emitting
variable [Zero F] [Add F] [Mul F] [OfNat F 2] [FloatOps F]

def Passes (config : Configuration F) (x : F) : Prop :=
  config.useGradThreshold = true → FloatOps.absGreater x config.gradThreshold = true

def finalGrad (config : Configuration F) (weights : List F) (x : F) (index : Int32) : F :=
  x + weightAt weights index * 2 * config.epsilon

structure Emitted (config : Configuration F) (weights : List F) (value : Int32 → F)
    (listed : List Int32) (res : Row F) : Prop where
  nodup : (res.map (·.1)).Nodup
  mem : ∀ e, e ∈ res ↔ e.1 ∈ listed ∧ FloatOps.isZero (value e.1) = false ∧
    Passes config e.2 ∧ e.2 = finalGrad config weights (value e.1) e.1

/-- What `part3` holds during the last loop: the cells of the indices seen are done with. -/
structure Emptied (part3 : List F) (seen : List Int32) (now : List F) : Prop where
  done : ∀ index ∈ seen, FloatOps.isZero (weightAt now index) = true
  kept : ∀ index, index ∉ seen → now[cell index]? = part3[cell index]?
  length : now.length = part3.length

theorem Emitted.skip {config : Configuration F} {weights : List F} {value : Int32 → F}
    {seen : List Int32} {res : Row F} (emitted : Emitted config weights value seen res)
    {index : Int32}
    (nothing : index ∈ seen ∨ FloatOps.isZero (value index) = true ∨
      ¬ Passes config (finalGrad config weights (value index) index)) :
    Emitted config weights value (seen ++ [index]) res := by
  refine ⟨emitted.nodup, fun e => ?_⟩
  rw [emitted.mem, List.mem_append, List.mem_singleton]
  constructor
  · intro ⟨before, rest⟩
    exact ⟨Or.inl before, rest⟩
  · intro ⟨listed, nonzero, passes, equal⟩
    rcases listed with before | rfl
    · exact ⟨before, nonzero, passes, equal⟩
    · rcases nothing with before | zero | blocked
      · exact ⟨before, nonzero, passes, equal⟩
      · rw [zero] at nonzero
        cases nonzero
      · rw [equal] at passes
        exact (blocked passes).elim

theorem Emitted.add {config : Configuration F} {weights : List F} {value : Int32 → F}
    {seen : List Int32} {res : Row F} (emitted : Emitted config weights value seen res)
    {index : Int32} (fresh : index ∉ seen) (nonzero : FloatOps.isZero (value index) = false)
    (passes : Passes config (finalGrad config weights (value index) index)) :
    Emitted config weights value (seen ++ [index])
      (res ++ [(index, finalGrad config weights (value index) index)]) := by
  have absent : ∀ e ∈ res, e.1 ≠ index := by
    intro e member same
    exact fresh (same ▸ ((emitted.mem e).mp member).1)
  refine ⟨?_, fun e => ?_⟩
  · rw [List.map_append, List.map_singleton, List.nodup_append]
    refine ⟨emitted.nodup, List.nodup_singleton _, ?_⟩
    intro i old j new same
    obtain ⟨e, member, rfl⟩ := List.mem_map.mp old
    exact absent e member (same.trans (List.mem_singleton.mp new))
  · rw [List.mem_append, emitted.mem, List.mem_append, List.mem_singleton, List.mem_singleton]
    constructor
    · intro h
      rcases h with ⟨before, rest⟩ | rfl
      · exact ⟨Or.inl before, rest⟩
      · exact ⟨Or.inr rfl, nonzero, passes, rfl⟩
    · intro ⟨listed, rest⟩
      rcases listed with before | here
      · exact Or.inl ⟨before, rest⟩
      · right
        obtain ⟨i, x⟩ := e
        dsimp only at here
        subst here
        have equal : x = _ := rest.2.2
        rw [equal]

theorem Emitted.congr {config : Configuration F} {weights : List F} {value value' : Int32 → F}
    {listed : List Int32} {res : Row F} (emitted : Emitted config weights value listed res)
    (same : ∀ index ∈ listed, value index = value' index) :
    Emitted config weights value' listed res := by
  refine ⟨emitted.nodup, fun e => ?_⟩
  rw [emitted.mem]
  constructor
  · intro ⟨here, rest⟩
    rw [same e.1 here] at rest
    exact ⟨here, rest⟩
  · intro ⟨here, rest⟩
    rw [← same e.1 here] at rest
    exact ⟨here, rest⟩

theorem emit_ends {config : Configuration F} {weights part3 : List F} {uniqueIndices : List Int32}
    {s : List F × Row F} (zero : FloatOps.isZero (0 : F) = true)
    (done : uniqueIndices.foldlM (SparseLRModel.emit config weights) (part3, []) = .ok s) :
    Emitted config weights (weightAt part3) uniqueIndices s.2 ∧ Emptied part3 uniqueIndices s.1 := by
  have nothing : Emitted config weights (weightAt part3) [] [] ∧ Emptied part3 [] part3 :=
    ⟨⟨List.nodup_nil, by simp⟩, ⟨by simp, fun _ _ => rfl, rfl⟩⟩
  apply foldlM_ends (P := fun seen s => Emitted config weights (weightAt part3) seen s.2 ∧
    Emptied part3 seen s.1) ?_ nothing done
  intro seen index _ s t before one
  obtain ⟨emitted, emptied⟩ := before
  obtain ⟨value, found, one⟩ := ok_of_bind one
  rw [at'_ok] at found
  have now : weightAt s.1 index = value := by rw [weightAt, List.getD, found]; rfl
  have first : index ∉ seen → weightAt part3 index = value := by
    intro fresh
    rw [weightAt, List.getD, ← emptied.kept index fresh, found]
    rfl
  split at one
  · rename_i empty
    cases one
    refine ⟨emitted.skip ?_, ⟨?_, fun other absent => ?_, emptied.length⟩⟩
    · rcases Decidable.em (index ∈ seen) with old | fresh
      · exact Or.inl old
      · rw [first fresh]
        exact Or.inr (Or.inl empty)
    · intro other member
      rcases List.mem_append.mp member with old | new
      · exact emptied.done other old
      · rw [List.mem_singleton.mp new, now]
        exact empty
    · exact emptied.kept other fun old => absent (List.mem_append_left _ old)
  · rename_i nonzero
    rw [Bool.not_eq_true] at nonzero
    have fresh : index ∉ seen := by
      intro old
      have again := emptied.done index old
      rw [now, nonzero] at again
      cases again
    obtain ⟨part3', stored, one⟩ := ok_of_bind one
    obtain ⟨inside, rfl⟩ := setAt_ok.mp stored
    obtain ⟨weight, weighed, one⟩ := ok_of_bind one
    rw [at'_ok] at weighed
    have grad : value + weight * 2 * config.epsilon = finalGrad config weights (weightAt part3 index) index := by
      rw [finalGrad, first fresh, weightAt, List.getD, weighed]
      rfl
    have emptied' : Emptied part3 (seen ++ [index]) (s.1.set (cell index) 0) := by
      refine ⟨?_, fun other absent => ?_, by rw [List.length_set, emptied.length]⟩
      · intro other member
        rcases Decidable.em (other = index) with rfl | different
        · rw [weightAt, List.getD, List.getElem?_set_self inside]
          exact zero
        · have apart : cell index ≠ cell other := fun same => different (cell_injective same).symm
          rw [weightAt, List.getD, List.getElem?_set_ne apart]
          rcases List.mem_append.mp member with old | new
          · exact emptied.done other old
          · exact (different (List.mem_singleton.mp new)).elim
      · have apart : cell index ≠ cell other := by
          intro same
          rw [cell_injective same] at absent
          simp at absent
        rw [List.getElem?_set_ne apart]
        exact emptied.kept other fun old => absent (List.mem_append_left _ old)
    dsimp only at one
    rw [grad] at one
    have nonzero' : FloatOps.isZero (weightAt part3 index) = false := by rw [first fresh, nonzero]
    split at one
    · rename_i through
      cases one
      refine ⟨emitted.add fresh nonzero' ?_, emptied'⟩
      intro used
      rcases through with unused | ⟨_, greater⟩
      · exact (unused used).elim
      · exact greater
    · rename_i blocked
      cases one
      refine ⟨emitted.skip (Or.inr (Or.inr fun passes => blocked ?_)), emptied'⟩
      rcases Bool.eq_false_or_eq_true config.useGradThreshold with used | unused
      · exact Or.inr ⟨used, passes used⟩
      · exact Or.inl (by rw [unused]; exact nofun)

end Emitting

theorem allocate_ends [Zero F] {v v' : List F} {n : Except Fault Nat}
    (done : SparseLRModel.allocate v n = .ok v') (index : Int32) :
    weightAt v' index = weightAt v index := by
  rw [SparseLRModel.allocate] at done
  split at done
  · rename_i empty
    rw [List.isEmpty_iff] at empty
    cases n with
    | error fault => cases done
    | ok n =>
      cases done
      rw [empty, weightAt, weightAt, List.getD, List.getD, List.getElem?_replicate]
      split <;> rfl
  · cases done
    rfl

section Gradient
variable [Zero F] [Add F] [Sub F] [Mul F] [OfNat F 2] [FloatOps F]

def valueAt (m : SparseLRModel F) (ds : SparseDataset F) (index : Int32) : F :=
  accumulated m.weightsSparse ds (weightAt m.part3 index) index

structure Computed (m m' : SparseLRModel F) (ds : SparseDataset F) (config : Configuration F)
    (g : LRSparseGradient F) (start : List F) : Prop where
  allocated : SparseLRModel.allocate m.part3 (SparseLRModel.sparseBlock config) = .ok start
  inside : ∀ index ∈ indices ds, cell index < start.length
  emitted : Emitted config m.weightsSparse (valueAt m ds) (indices ds) g.weights
  done : ∀ index ∈ indices ds, FloatOps.isZero (weightAt m'.part3 index) = true
  kept : ∀ index, index ∉ indices ds → m'.part3[cell index]? = start[cell index]?
  length : m'.part3.length = start.length
  part2 : ∃ part2, SparseLRModel.allocate m.part2 (.ok config.minibatchSize) = .ok part2 ∧
    m'.part2.length = part2.length

theorem minibatchGradSparse_ends {m m' : SparseLRModel F} {ds : SparseDataset F}
    {config : Configuration F} {g : LRSparseGradient F} (zero : FloatOps.isZero (0 : F) = true)
    (done : m.minibatchGradSparse ds config = .ok (m', g)) :
    ∃ start, Computed m m' ds config g start := by
  obtain ⟨prepared, ensured, done⟩ := ok_of_bind done
  obtain ⟨start, allocated, ensured⟩ := ok_of_bind ensured
  obtain ⟨scratch, allocated', ensured⟩ := ok_of_bind ensured
  cases ensured
  obtain ⟨part2, computed, done⟩ := ok_of_bind done
  obtain ⟨⟨uniqueIndices, part3⟩, gathered, done⟩ := ok_of_bind done
  obtain ⟨⟨part3', res⟩, emitted, done⟩ := ok_of_bind done
  cases done
  have known := residuals_ends (fun row x dotted => sparseDot_ends dotted) computed
  have collected := collect_ends known gathered
  obtain ⟨out, emptied⟩ := emit_ends zero emitted
  have listed : uniqueIndices = indices ds := by
    rw [← shares_indices (v := m.weightsSparse)]
    exact collected.listed
  have inside : ∀ index ∈ indices ds, cell index < start.length := by
    intro index member
    rw [← shares_indices (v := m.weightsSparse)] at member
    obtain ⟨e, share, rfl⟩ := List.mem_map.mp member
    exact collected.inside e share
  have value : ∀ index ∈ indices ds, weightAt part3 index = valueAt m ds index := by
    intro index member
    have bound := inside index member
    rw [valueAt, accumulated, ← allocate_ends allocated, weightAt, weightAt, List.getD, List.getD,
      collected.summed index, List.getElem?_eq_getElem bound]
    rfl
  rw [listed] at out emptied
  refine ⟨start, allocated, inside, out.congr value, emptied.done, fun index absent => ?_, ?_,
    scratch, allocated', residuals_length computed⟩
  · rw [emptied.kept index absent, collected.summed index]
    have none_here : ∀ e ∈ shares m.weightsSparse ds ds.data.zipIdx, e.1 ≠ index := by
      intro e share same
      rw [← shares_indices (v := m.weightsSparse)] at absent
      exact absent (List.mem_map.mpr ⟨e, share, same⟩)
    simp only [sumFor_of_absent _ none_here, Option.map_id']
  · rw [emptied.length]
    exact collected.length

end Gradient
end SparseLR

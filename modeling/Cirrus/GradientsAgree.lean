import Cirrus.Exact
import Cirrus.MinibatchGradient

/-!
`minibatch_grad` of a plain model and `minibatch_grad_sparse` of a sparse one
with the same weights. The first has an entry for every index of the minibatch;
the second leaves out those whose shares cancel, as it takes a 0 for the mark of
an index that it has been at.
-/
namespace GradientsAgree
open Gradients SparseLR Loops
variable {F : Type}

section Map
variable [Zero F] [Add F]

structure InMap (l : List (Int32 × F)) (part3 : AList fun _ : UInt64 => F) : Prop where
  summed : ∀ index ∈ l.map (·.1), part3.lookup (SparseLRModel.key index) = some (sumFor 0 index l)
  absent : ∀ index, index ∉ l.map (·.1) → part3.lookup (SparseLRModel.key index) = none
  keys : ∀ k ∈ part3.keys, ∃ index ∈ l.map (·.1), k = SparseLRModel.key index

@[simp] theorem ofKey_key (index : Int32) : SparseLRModel.ofKey (SparseLRModel.key index) = index := by
  simp [SparseLRModel.ofKey, SparseLRModel.key]

theorem key_injective : Function.Injective SparseLRModel.key := by
  intro a b same
  have back := congrArg SparseLRModel.ofKey same
  rwa [ofKey_key, ofKey_key] at back

theorem InMap.add {l : List (Int32 × F)} {part3 : AList fun _ : UInt64 => F} (held : InMap l part3)
    (index : Int32) (x : F) :
    InMap (l ++ [(index, x)]) (part3.insert (SparseLRModel.key index)
      ((part3.lookup (SparseLRModel.key index)).getD 0 + x)) := by
  have old : (part3.lookup (SparseLRModel.key index)).getD 0 = sumFor 0 index l := by
    rcases Decidable.em (index ∈ l.map (·.1)) with seen | fresh
    · rw [held.summed index seen]
      rfl
    · rw [held.absent index fresh, sumFor_of_absent]
      · rfl
      · intro e member same
        exact fresh (List.mem_map.mpr ⟨e, member, same⟩)
  rw [old]
  refine ⟨fun other member => ?_, fun other absent => ?_, fun k member => ?_⟩
  · rcases Decidable.em (other = index) with rfl | different
    · rw [AList.lookup_insert, sumFor_concat_self]
    · have before : other ∈ l.map (·.1) := by simpa [different] using member
      rw [AList.lookup_insert_ne fun same => different (key_injective same),
        sumFor_concat_ne _ (Ne.symm different)]
      exact held.summed other before
  · have before : other ∉ l.map (·.1) ∧ other ≠ index := by simpa using absent
    rw [AList.lookup_insert_ne fun same => before.2 (key_injective same)]
    exact held.absent other before.1
  · rw [AList.keys_insert, List.mem_cons] at member
    rcases member with rfl | before
    · exact ⟨index, by simp, rfl⟩
    · obtain ⟨other, listed, rfl⟩ := held.keys k (List.mem_of_mem_erase before)
      exact ⟨other, by rw [List.map_append]; exact List.mem_append_left _ listed, rfl⟩

end Map

section Plain
variable [Zero F] [Add F] [Sub F] [Mul F] [FloatOps F]

theorem collectInMap_ends {v : List F} {ds : SparseDataset F} {part2 : List F}
    {part3 : AList fun _ : UInt64 => F}
    (prepared : ∀ i < ds.data.length, part2[i]? = some (residual v ds i))
    (done : ds.data.zipIdx.foldlM (SparseLRModel.collectInMap part2) ∅ = .ok part3) :
    InMap (shares v ds ds.data.zipIdx) part3 := by
  have nothing : InMap ([] : List (Int32 × F)) ∅ := ⟨by simp, fun _ _ => rfl, by simp⟩
  apply foldlM_ends (P := fun seen part3 => InMap (shares v ds seen) part3) ?_ nothing done
  intro seen sample here s t before one
  obtain ⟨position, row⟩ := getElem?_of_prefix_zipIdx here
  have known := prepared seen.length (List.getElem?_eq_some_iff.mp row).1
  have inner := foldlM_ends (P := fun feats part3 => InMap
    (shares v ds seen ++ feats.map fun feat => (feat.1, feat.2 * residual v ds sample.2)) part3)
    ?_ (by simpa using before) one
  · simpa [shares] using inner
  · intro feats feat _ s t before one
    obtain ⟨r, residual_here, one⟩ := ok_of_bind one
    cases one
    rw [at'_ok, position, known, Option.some.injEq, ← position] at residual_here
    rw [List.map_append, ← List.append_assoc, ← residual_here]
    exact before.add _ _

theorem minibatchGrad_ends [OfNat F 2] {m : SparseLRModel F} {ds : SparseDataset F} {config : Configuration F}
    {g : LRSparseGradient F} (done : m.minibatchGrad ds config = .ok g) (e : Int32 × F) :
    e ∈ g.weights ↔ e.1 ∈ indices ds ∧
      e.2 = finalGrad config m.weights (accumulated m.weights ds 0 e.1) e.1 := by
  rw [SparseLRModel.minibatchGrad] at done
  split at done
  · cases done
  · obtain ⟨part2, computed, done⟩ := ok_of_bind done
    obtain ⟨part3, gathered, done⟩ := ok_of_bind done
    obtain ⟨res, listed, done⟩ := ok_of_bind done
    cases done
    have known := residuals_ends (fun row x dotted => dotProduct_ends dotted) computed
    have held := collectInMap_ends known gathered
    rw [← shares_indices (v := m.weights), mem_of_mapM listed e]
    have weighs : ∀ index weight, at' m.weights (SparseLRModel.key index).toNat = .ok weight →
        weightAt m.weights index = weight := by
      intro index weight found
      rw [at'_ok] at found
      exact congrArg (·.getD 0) found
    constructor
    · rintro ⟨v, member, one⟩
      obtain ⟨weight, found, one⟩ := ok_of_bind one
      cases one
      obtain ⟨index, shared, here⟩ := held.keys v.1 (List.mem_map_of_mem member)
      have value := held.summed index shared
      rw [← here, AList.mem_lookup_iff.mpr member, Option.some.injEq] at value
      rw [here] at found ⊢
      rw [ofKey_key, value, finalGrad, weighs index weight found]
      exact ⟨shared, rfl⟩
    · rintro ⟨shared, value⟩
      have entry := AList.mem_lookup_iff.mp (held.summed e.1 shared)
      obtain ⟨out, _, made⟩ := each_of_mapM listed _ entry
      refine ⟨_, entry, made.trans ?_⟩
      obtain ⟨weight, found, made⟩ := ok_of_bind made
      cases made
      obtain ⟨index, x⟩ := e
      dsimp only at value found ⊢
      rw [value, ofKey_key, finalGrad, weighs index weight found]
      rfl

end Plain

section Total

theorem residuals_settles [Sub F] [FloatOps F] {Q : Fault → Prop} (dotOf : Row F → Except Fault F) (ds : SparseDataset F)
    (part2 : List F) (dots : ∀ row ∈ ds.data, ∃ x, dotOf row = .ok x)
    (sigmoids : ∀ x : F, Settles (fun _ => True) Q (s1 x))
    (labelled : ds.labels.length = ds.data.length) (room : ds.data.length ≤ part2.length) :
    Settles (fun now => now.length = part2.length) Q (residuals dotOf ds part2) := by
  refine foldlM_settles (P := fun _ (now : List F) => now.length = part2.length) ?_ rfl
  intro seen sample here s size
  obtain ⟨position, row⟩ := getElem?_of_prefix_zipIdx here
  have bound := (List.getElem?_eq_some_iff.mp row).1
  obtain ⟨part1, dotted⟩ := dots sample.1 (List.mem_of_getElem? row)
  obtain ⟨label, labels⟩ : ∃ label, at' ds.labels sample.2 = .ok label :=
    ⟨_, at'_of_lt (by rw [position]; omega)⟩
  rw [dotted, labels]
  refine (sigmoids part1).bind fun y _ => ?_
  rw [setAt_of_lt (by rw [position]; omega)]
  exact .ok (List.length_set.trans size)

theorem residuals_ok [Sub F] [FloatOps F] {dotOf : Row F → Except Fault F} {ds : SparseDataset F} (part2 : List F)
    (dots : ∀ row ∈ ds.data, ∃ x, dotOf row = .ok x)
    (total : ∀ x : F, ∃ y, FloatOps.sigmoid x = some y)
    (labelled : ds.labels.length = ds.data.length) (room : ds.data.length ≤ part2.length) :
    ∃ part2', residuals dotOf ds part2 = .ok part2' := by
  have sigmoids : ∀ x : F, Settles (fun _ => True) (fun _ => False) (s1 x) := by
    intro x
    obtain ⟨y, sigmoid⟩ := total x
    rw [s1_ok.mpr sigmoid]
    exact .ok trivial
  obtain ⟨part2', done, _⟩ := (residuals_settles dotOf ds part2 dots sigmoids labelled room).gives
  exact ⟨part2', done⟩

variable [Zero F] [Add F] [Mul F]

theorem sparseDot_ok {v : List F} {row : Row F} (inside : ∀ feat ∈ row, cell feat.1 < v.length) :
    ∃ x, SparseLRModel.sparseDot v row = .ok x := by
  apply foldlM_ok (P := fun _ => True) ?_ trivial
  intro seen feat here s _
  have bound := inside feat (mem_of_here here)
  refine ⟨s + feat.2 * v[cell feat.1], ?_, trivial⟩
  rw [at'_of_lt bound]
  rfl

theorem dotProduct_ok {v : List F} {row : Row F} (inside : ∀ feat ∈ row, cell feat.1 < v.length)
    (natural : ∀ feat ∈ row, 0 ≤ feat.1.toInt) : ∃ x, SparseLRModel.dotProduct v row = .ok x := by
  apply foldlM_ok (P := fun _ => True) ?_ trivial
  intro seen feat here s _
  have bound := inside feat (mem_of_here here)
  refine ⟨s + feat.2 * v[cell feat.1], ?_, trivial⟩
  rw [if_neg (by omega), if_neg (not_not.mpr (natural feat (mem_of_here here))), at'_of_lt bound]
  rfl

omit [Zero F] in
theorem collect_ok {ds : SparseDataset F} {part2 : List F} (start : List Int32 × List F)
    (prepared : ∀ i < ds.data.length, ∃ r, part2[i]? = some r)
    (inside : ∀ index ∈ indices ds, cell index < start.2.length) :
    ∃ s, ds.data.zipIdx.foldlM (SparseLRModel.collect part2) start = .ok s := by
  apply foldlM_ok (P := fun now : List Int32 × List F => now.2.length = start.2.length) ?_ rfl
  intro seen sample here s size
  obtain ⟨position, row⟩ := getElem?_of_prefix_zipIdx here
  have bound := (List.getElem?_eq_some_iff.mp row).1
  obtain ⟨r, found⟩ := prepared sample.2 (by rw [position]; exact bound)
  have known := at'_ok.mpr found
  apply foldlM_gives (P := fun _ (now : List Int32 × List F) => now.2.length = start.2.length) ?_ size
  intro feats feat within s size
  have listed : feat.1 ∈ indices ds := List.mem_map_of_mem
    (List.mem_flatten.mpr ⟨sample.1, List.mem_of_getElem? row, mem_of_here within⟩)
  have room := inside feat.1 listed
  rw [← size] at room
  refine ⟨(s.1 ++ [feat.1], s.2.set (cell feat.1) (s.2[cell feat.1] + feat.2 * r)), ?_, ?_⟩
  · simp only [known, addAt_of_lt room, bind, Except.bind]
    rfl
  · rw [List.length_set, size]

theorem collectInMap_ok (ds : SparseDataset F) {part2 : List F}
    (prepared : ∀ i < ds.data.length, ∃ r, part2[i]? = some r) :
    ∃ part3, ds.data.zipIdx.foldlM (SparseLRModel.collectInMap part2) ∅ = .ok part3 := by
  apply foldlM_ok (P := fun _ => True) ?_ trivial
  intro seen sample here s _
  obtain ⟨position, row⟩ := getElem?_of_prefix_zipIdx here
  have bound := (List.getElem?_eq_some_iff.mp row).1
  obtain ⟨r, found⟩ := prepared sample.2 (by rw [position]; exact bound)
  apply foldlM_gives (P := fun _ _ => True) ?_ trivial
  intro feats feat _ s _
  rw [at'_ok.mpr found]
  exact ⟨_, rfl, trivial⟩

theorem emit_ok [OfNat F 2] [FloatOps F] (config : Configuration F) (weights part3 : List F)
    (uniqueIndices : List Int32) (inside : ∀ index ∈ uniqueIndices, cell index < part3.length)
    (inside' : ∀ index ∈ uniqueIndices, cell index < weights.length) :
    ∃ s, uniqueIndices.foldlM (SparseLRModel.emit config weights) (part3, []) = .ok s := by
  apply foldlM_ok (P := fun now : List F × Row F => now.1.length = part3.length) ?_ rfl
  intro seen index here s size
  have room := inside index (mem_of_here here)
  have room' := inside' index (mem_of_here here)
  rw [← size] at room
  simp only [SparseLRModel.emit, at'_of_lt room, at'_of_lt room', setAt_of_lt room, bind, Except.bind]
  split
  · exact ⟨s, rfl, size⟩
  · split
    · exact ⟨_, rfl, by rw [List.length_set, size]⟩
    · exact ⟨_, rfl, by rw [List.length_set, size]⟩

end Total

/-- What holds of the vectors that a sparse model keeps, before and after every call. -/
structure Scratch [Zero F] (config : Configuration F) (m : SparseLRModel F) : Prop where
  part2 : m.part2 = [] ∨ m.part2.length = config.minibatchSize
  part3 : m.part3 = [] ∨ m.part3.length = 2 ^ config.modelBits
  cleared : ∀ x ∈ m.part3, x = 0

theorem Scratch.weightAt_zero [Zero F] {config : Configuration F} {m : SparseLRModel F}
    (scratch : Scratch config m) (index : Int32) : weightAt m.part3 index = 0 := by
  rw [weightAt, List.getD]
  cases found : m.part3[cell index]? with
  | none => rfl
  | some x => exact scratch.cleared x (List.mem_of_getElem? found)

/-- A plain and a sparse model that have the same weights at the indices of a minibatch. -/
structure Comparable [Zero F] (plain sparse : SparseLRModel F) (ds : SparseDataset F)
    (config : Configuration F) : Prop where
  whole : plain.isSparse = false
  unfiltered : config.useGradThreshold = false
  modelBits : config.modelBits < 31
  block : sparse.weightsSparse.length = 2 ^ config.modelBits
  scratch : Scratch config sparse
  labels : ds.labels.length = ds.data.length
  few : ds.data.length ≤ config.minibatchSize
  natural : ∀ index ∈ indices ds, 0 ≤ index.toInt ∧ index.toInt < 2 ^ config.modelBits
  same : ∀ index ∈ indices ds, plain.weights[cell index]? = sparse.weightsSparse[cell index]?

theorem mem_indices {ds : SparseDataset F} {row : Row F} {feat : Int32 × F} (sample : row ∈ ds.data)
    (here : feat ∈ row) : feat.1 ∈ indices ds :=
  List.mem_map_of_mem (List.mem_flatten.mpr ⟨row, sample, here⟩)

theorem Comparable.inside [Zero F] {plain sparse : SparseLRModel F} {ds : SparseDataset F}
    {config : Configuration F} (c : Comparable plain sparse ds config) {index : Int32}
    (listed : index ∈ indices ds) : cell index < 2 ^ config.modelBits := by
  obtain ⟨natural, small⟩ := c.natural index listed
  exact cell_lt natural small

theorem allocate_ok [Zero F] {v : List F} {n : Nat} (sized : v = [] ∨ v.length = n) :
    ∃ v', SparseLRModel.allocate v (.ok n) = .ok v' ∧ v'.length = n := by
  rw [SparseLRModel.allocate]
  split
  · exact ⟨_, rfl, List.length_replicate⟩
  · rename_i some_cell
    rw [List.isEmpty_iff] at some_cell
    rcases sized with empty | length
    · exact (some_cell empty).elim
    · exact ⟨v, rfl, length⟩

theorem scratch_length [Zero F] {v v' : List F} {n : Nat} (sized : v = [] ∨ v.length = n)
    (done : SparseLRModel.allocate v (.ok n) = .ok v') : v'.length = n := by
  obtain ⟨_, allocated, size⟩ := allocate_ok sized
  cases done.symm.trans allocated
  exact size

section Agreement
variable [Zero F] [Add F] [Sub F] [Mul F] [FloatOps F]
variable {plain sparse : SparseLRModel F} {ds : SparseDataset F} {config : Configuration F}

theorem accumulated_congr {v v' : List F}
    (same : ∀ index ∈ indices ds, weightAt v index = weightAt v' index) (start : F) (index : Int32) :
    accumulated v ds start index = accumulated v' ds start index := by
  have dots : ∀ row ∈ ds.data, dot v row = dot v' row := by
    intro row sample
    apply List.foldl_ext
    intro part1 feat here
    rw [same feat.1 (mem_indices sample here)]
  have residuals : ∀ sample ∈ ds.data.zipIdx, residual v ds sample.2 = residual v' ds sample.2 := by
    intro sample member
    have found := List.mk_mem_zipIdx_iff_getElem?.mp member
    have row : ds.data.getD sample.2 [] = sample.1 := by rw [List.getD, found]; rfl
    rw [SparseLR.residual, SparseLR.residual, row, dots sample.1 (List.mem_of_getElem? found)]
  rw [accumulated, accumulated, shares, shares]
  congr 1
  apply List.flatMap_congr
  intro sample member
  rw [residuals sample member]

theorem Comparable.value (c : Comparable plain sparse ds config) (index : Int32) :
    valueAt sparse ds index = accumulated plain.weights ds 0 index := by
  rw [valueAt, c.scratch.weightAt_zero]
  apply accumulated_congr
  intro other listed
  rw [weightAt, weightAt, List.getD, List.getD, c.same other listed]

variable [OfNat F 2]

theorem sparse_ok_of_residuals {m : SparseLRModel F} {start scratch part2 : List F}
    (allocated : SparseLRModel.allocate m.part3 (SparseLRModel.sparseBlock config) = .ok start)
    (allocated' : SparseLRModel.allocate m.part2 (.ok config.minibatchSize) = .ok scratch)
    (computed : residuals (SparseLRModel.sparseDot m.weightsSparse) ds scratch = .ok part2)
    (room : ∀ index ∈ indices ds, cell index < start.length)
    (inside : ∀ index ∈ indices ds, cell index < m.weightsSparse.length) :
    ∃ t, m.minibatchGradSparse ds config = .ok t := by
  have known := residuals_ends (fun row x dotted => sparseDot_ends dotted) computed
  obtain ⟨⟨uniqueIndices, part3⟩, gathered⟩ := collect_ok ([], start)
    (fun i bound => ⟨_, known i bound⟩) room
  have collected := collect_ends known gathered
  have listed : uniqueIndices = indices ds := by
    rw [← shares_indices (v := m.weightsSparse)]
    exact collected.listed
  obtain ⟨⟨part3', res⟩, emitted⟩ := emit_ok config m.weightsSparse part3 uniqueIndices
    (fun index member => by
      rw [collected.length]
      exact room index (listed ▸ member))
    (fun index member => inside index (listed ▸ member))
  refine ⟨({ m with uniqueIndices := uniqueIndices, part3 := part3', part2 := part2 },
    { weights := res }), ?_⟩
  rw [SparseLRModel.minibatchGradSparse, SparseLRModel.ensurePreallocatedVectors, bind_of_ok allocated,
    bind_of_ok allocated']
  change (residuals (SparseLRModel.sparseDot m.weightsSparse) ds scratch >>= _) = _
  rw [bind_of_ok computed]
  change (ds.data.zipIdx.foldlM (SparseLRModel.collect part2) ([], start) >>= _) = _
  rw [bind_of_ok gathered]
  change (uniqueIndices.foldlM (SparseLRModel.emit config m.weightsSparse) (part3, []) >>= _) = _
  rw [bind_of_ok emitted]
  rfl

theorem Comparable.sparse_ok (c : Comparable plain sparse ds config)
    (total : ∀ x : F, ∃ y, FloatOps.sigmoid x = some y) :
    ∃ t, sparse.minibatchGradSparse ds config = .ok t := by
  have block : SparseLRModel.sparseBlock config = .ok (2 ^ config.modelBits) := if_pos c.modelBits
  obtain ⟨start, allocated, size⟩ := allocate_ok c.scratch.part3
  obtain ⟨scratch, allocated', size'⟩ := allocate_ok c.scratch.part2
  have inside : ∀ index ∈ indices ds, cell index < sparse.weightsSparse.length := by
    intro index listed
    rw [c.block]
    exact c.inside listed
  obtain ⟨part2, computed⟩ := residuals_ok scratch
    (fun row sample => sparseDot_ok fun feat here => inside feat.1 (mem_indices sample here))
    total c.labels (by rw [size']; exact c.few)
  rw [← block] at allocated
  exact sparse_ok_of_residuals allocated allocated' computed (fun index listed => size ▸ c.inside listed) inside

theorem Comparable.plain_ok (c : Comparable plain sparse ds config)
    (total : ∀ x : F, ∃ y, FloatOps.sigmoid x = some y) : ∃ g, plain.minibatchGrad ds config = .ok g := by
  have inside : ∀ index ∈ indices ds, cell index < plain.weights.length := by
    intro index listed
    have bound := c.inside listed
    rw [← c.block] at bound
    have found := c.same index listed
    rw [List.getElem?_eq_getElem bound] at found
    exact (List.getElem?_eq_some_iff.mp found).1
  obtain ⟨part2, computed⟩ := residuals_ok (List.replicate ds.data.length 0)
    (fun row sample => dotProduct_ok (fun feat here => inside feat.1 (mem_indices sample here))
      fun feat here => (c.natural feat.1 (mem_indices sample here)).1)
    total c.labels (by simp)
  have known := residuals_ends (fun row x dotted => dotProduct_ends dotted) computed
  obtain ⟨part3, gathered⟩ := collectInMap_ok ds fun i bound => ⟨_, known i bound⟩
  have held := collectInMap_ends known gathered
  obtain ⟨res, listed⟩ := mapM_gives (l := part3.entries)
    (f := fun v => do
      pure (SparseLRModel.ofKey v.1, v.2 + (← at' plain.weights v.1.toNat) * 2 * config.epsilon))
    (by
      intro v member
      obtain ⟨index, shared, here⟩ := held.keys v.1 (List.mem_map_of_mem member)
      rw [shares_indices] at shared
      have bound : v.1.toNat < plain.weights.length := by
        rw [here]
        exact inside index shared
      rw [at'_of_lt bound]
      exact ⟨_, rfl⟩)
  refine ⟨{ weights := res }, ?_⟩
  have dense : ¬ plain.isSparse = true := by rw [c.whole]; exact nofun
  rw [SparseLRModel.minibatchGrad, if_neg dense, bind_of_ok computed, bind_of_ok gathered,
    bind_of_ok listed]
  rfl

def Agree (plain sparse : SparseLRModel F) (ds : SparseDataset F) (config : Configuration F) : Prop :=
  ∃ m' g' g, sparse.minibatchGradSparse ds config = .ok (m', g') ∧
    plain.minibatchGrad ds config = .ok g ∧ ∀ e, e ∈ g'.weights ↔ e ∈ g.weights

theorem entries_agree_iff (zero : FloatOps.isZero (0 : F) = true) (c : Comparable plain sparse ds config)
    {m' : SparseLRModel F} {g' g : LRSparseGradient F}
    (returned : sparse.minibatchGradSparse ds config = .ok (m', g'))
    (returned' : plain.minibatchGrad ds config = .ok g) :
    (∀ e, e ∈ g'.weights ↔ e ∈ g.weights) ↔
      ∀ index ∈ indices ds, FloatOps.isZero (accumulated plain.weights ds 0 index) = false := by
  obtain ⟨start, computed⟩ := minibatchGradSparse_ends zero returned
  have entries := minibatchGrad_ends returned'
  have weigh : ∀ index ∈ indices ds, ∀ x,
      finalGrad config sparse.weightsSparse x index = finalGrad config plain.weights x index := by
    intro index listed x
    rw [finalGrad, finalGrad, weightAt, weightAt, List.getD, List.getD, c.same index listed]
  have passes : ∀ x, Passes config x := fun x used => by
    rw [c.unfiltered] at used
    cases used
  constructor
  · intro same index listed
    let e := (index, finalGrad config plain.weights (accumulated plain.weights ds 0 index) index)
    have entry : e ∈ g'.weights := (same e).mpr ((entries e).mpr ⟨listed, rfl⟩)
    have nonzero := ((computed.emitted.mem e).mp entry).2.1
    rwa [c.value] at nonzero
  · intro nonzero e
    rw [computed.emitted.mem, entries, c.value]
    constructor
    · rintro ⟨listed, _, _, equal⟩
      rw [weigh e.1 listed] at equal
      exact ⟨listed, equal⟩
    · rintro ⟨listed, equal⟩
      rw [← weigh e.1 listed] at equal
      exact ⟨listed, nonzero e.1 listed, passes e.2, equal⟩

/-- The two gradients agree exactly if the shares of no index cancel. -/
theorem gradients_agree_iff (exact : ∀ x : F, FloatOps.isZero x = true ↔ x = 0)
    (total : ∀ x : F, ∃ y, FloatOps.sigmoid x = some y) (c : Comparable plain sparse ds config) :
    Agree plain sparse ds config ↔
      ∀ index ∈ indices ds, accumulated plain.weights ds 0 index ≠ 0 := by
  obtain ⟨⟨m', g'⟩, returned⟩ := c.sparse_ok total
  obtain ⟨g, returned'⟩ := c.plain_ok total
  have iff := entries_agree_iff ((exact 0).mpr rfl) c returned returned'
  simp only [← Bool.not_eq_true, exact] at iff
  rw [← iff]
  constructor
  · intro ⟨_, _, _, computed, computed', same⟩
    rw [returned] at computed
    rw [returned'] at computed'
    cases computed
    cases computed'
    exact same
  · intro same
    exact ⟨m', g', g, returned, returned', same⟩

omit [Add F] [Sub F] [Mul F] [FloatOps F] [OfNat F 2] in
theorem mem_allocate {v v' : List F} {n : Except Fault Nat} (done : SparseLRModel.allocate v n = .ok v') :
    ∀ x ∈ v', x = 0 ∨ x ∈ v := by
  rw [SparseLRModel.allocate] at done
  intro x member
  split at done
  · cases n with
    | error fault => cases done
    | ok n =>
      cases done
      exact .inl (List.eq_of_mem_replicate member)
  · cases done
    exact .inr member

theorem computed_cells {m m' : SparseLRModel F} {g : LRSparseGradient F} {start : List F}
    (computed : Computed m m' ds config g start) (modelBits : config.modelBits < 31)
    (size : start.length = 2 ^ config.modelBits) : ∀ x ∈ m'.part3, FloatOps.isZero x = true ∨ x ∈ start := by
  intro x member
  obtain ⟨c, bound, rfl⟩ := List.mem_iff_getElem.mp member
  have small : c < 2 ^ 31 := by
    rw [computed.length, size] at bound
    exact Nat.lt_trans bound (Nat.pow_lt_pow_right (by decide) modelBits)
  have natural : (Int32.ofNat c).toInt = c := LRSparseGradient.toInt_toInt small
  have here : cell (Int32.ofNat c) = c := by
    rw [cell_of_natural (by omega), natural]
    exact Int.toNat_natCast c
  rcases Decidable.em (Int32.ofNat c ∈ indices ds) with listed | absent
  · have cleared := computed.done _ listed
    rw [weightAt, List.getD, here, List.getElem?_eq_getElem bound] at cleared
    exact .inl cleared
  · have kept := computed.kept _ absent
    rw [here, List.getElem?_eq_getElem bound] at kept
    exact .inr (List.mem_of_getElem? kept.symm)

theorem scratch_after (exact : ∀ x : F, FloatOps.isZero x = true ↔ x = 0)
    {m m' : SparseLRModel F} {g : LRSparseGradient F} (scratch : Scratch config m)
    (modelBits : config.modelBits < 31)
    (returned : m.minibatchGradSparse ds config = .ok (m', g)) : Scratch config m' := by
  obtain ⟨start, computed⟩ := minibatchGradSparse_ends ((exact 0).mpr rfl) returned
  have block : SparseLRModel.sparseBlock config = .ok (2 ^ config.modelBits) := if_pos modelBits
  have size := scratch_length scratch.part3 (block ▸ computed.allocated)
  obtain ⟨part2, allocated', kept⟩ := computed.part2
  refine ⟨Or.inr (kept.trans (scratch_length scratch.part2 allocated')), Or.inr (computed.length.trans size),
    fun x member => ?_⟩
  rcases computed_cells computed modelBits size x member with cleared | before
  · exact (exact x).mp cleared
  · exact (mem_allocate computed.allocated x before).elim id (scratch.cleared x)

end Agreement

section Runs
open Exact

def explicitZero : SparseDataset ℚ where
  data := [[(0, 1), (1, 0)]]
  labels := [1]

def withoutZero : SparseDataset ℚ where
  data := [[(0, 1), (1, 3)]]
  labels := [1]

def settings : Configuration ℚ where
  learningRate := 1
  modelBits := 1
  minibatchSize := 1
  epsilon := 1 / 10
  gradThreshold := 0

def plain : SparseLRModel ℚ where
  weights := [0, 0]
  weightsHist := [0, 0]

def sparse : SparseLRModel ℚ where
  weights := []
  weightsHist := []
  weightsSparse := [0, 0]

theorem exact_zero (x : ℚ) : FloatOps.isZero x = true ↔ x = 0 := decide_eq_true_iff

theorem total_sigmoid (x : ℚ) : ∃ y, FloatOps.sigmoid x = some y := ⟨_, rfl⟩

theorem indices_zero : indices explicitZero = [0, 1] := rfl

theorem indices_without_zero : indices withoutZero = [0, 1] := rfl

theorem comparable_zero : Comparable plain sparse explicitZero settings where
  whole := rfl
  unfiltered := rfl
  modelBits := by decide
  block := rfl
  scratch := ⟨Or.inl rfl, Or.inl rfl, nofun⟩
  labels := rfl
  few := Nat.le_refl _
  natural := by
    rw [indices_zero, List.forall_mem_cons, List.forall_mem_singleton]
    decide
  same := by
    rw [indices_zero, List.forall_mem_cons, List.forall_mem_singleton]
    decide +kernel

theorem cancelled_index_left_out :
    ¬ ∀ (plain sparse : SparseLRModel ℚ) (ds : SparseDataset ℚ) (config : Configuration ℚ),
      Comparable plain sparse ds config → Agree plain sparse ds config := by
  intro always
  obtain ⟨m', g', g, returned, returned', same⟩ := always _ _ _ _ comparable_zero
  have kept := (entries_agree_iff rfl comparable_zero returned returned').mp same 1 (indices_zero ▸ by decide)
  exact absurd kept (by decide +kernel)

theorem gradients_agree_without_zero : Agree plain sparse withoutZero settings := by
  have comparable : Comparable plain sparse withoutZero settings :=
    { comparable_zero with
      natural := by
        rw [indices_without_zero, ← indices_zero]
        exact comparable_zero.natural
      same := by
        rw [indices_without_zero, ← indices_zero]
        exact comparable_zero.same }
  apply (gradients_agree_iff exact_zero total_sigmoid comparable).mpr
  rw [indices_without_zero, List.forall_mem_cons, List.forall_mem_singleton]
  decide +kernel

end Runs
end GradientsAgree

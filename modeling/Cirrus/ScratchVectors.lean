import Cirrus.GradientsAgree

/-!
The vectors that `minibatch_grad_sparse` keeps between calls. A call clears the
cells of `part3` that it has used while it walks its indices, and it stores in
`part2` before it reads there, so that the next call finds what a new model has.
-/
namespace ScratchVectors
open Gradients SparseLR Loops GradientsAgree
variable {F : Type}

/-- Of the arithmetic only this is used: 0 is a zero, and if there are two zeros, as in floats, one is as
good as the other in a sum. -/
structure ZeroLaws (F : Type) [Zero F] [Add F] [FloatOps F] : Prop where
  zero : FloatOps.isZero (0 : F) = true
  add : ∀ x x' y : F, FloatOps.isZero x = true → FloatOps.isZero x' = true →
    x + y = x' + y ∨ FloatOps.isZero (x + y) = true ∧ FloatOps.isZero (x' + y) = true

structure Call (F : Type) where
  weights : List F
  ds : SparseDataset F
  config : Configuration F

structure Call.Fits (bits size : Nat) (c : Call F) : Prop where
  modelBits : c.config.modelBits = bits
  minibatchSize : c.config.minibatchSize = size
  block : c.weights.length = 2 ^ bits
  few : c.ds.data.length ≤ size
  labels : c.ds.labels.length = c.ds.data.length
  inside : ∀ index ∈ indices c.ds, 0 ≤ index.toInt ∧ index.toInt < 2 ^ bits

structure Unused (m : SparseLRModel F) : Prop where
  part2 : m.part2 = []
  part3 : m.part3 = []

theorem ofSize_unused [Zero F] (d : Nat) : Unused (SparseLRModel.ofSize d : SparseLRModel F) := ⟨rfl, rfl⟩

section Calls
variable [Zero F] [Add F] [Sub F] [Mul F] [OfNat F 2] [FloatOps F]

def Call.on (c : Call F) (m : SparseLRModel F) : Except Fault (SparseLRModel F × LRSparseGradient F) :=
  { m with weightsSparse := c.weights }.minibatchGradSparse c.ds c.config

/-- The model after all of the calls, unless one of them has thrown, which ends the worker. -/
def run (m : SparseLRModel F) (calls : List (Call F)) : Except Fault (SparseLRModel F) :=
  calls.foldlM (fun m c => (c.on m).map (·.1)) m

end Calls

structure Clean [FloatOps F] (bits size : Nat) (m : SparseLRModel F) : Prop where
  part2 : m.part2 = [] ∨ m.part2.length = size
  part3 : m.part3 = [] ∨ bits < 31 ∧ m.part3.length = 2 ^ bits
  zero : ∀ x ∈ m.part3, FloatOps.isZero x = true

theorem Unused.clean [FloatOps F] {bits size : Nat} {m : SparseLRModel F} (unused : Unused m) :
    Clean bits size m where
  part2 := .inl unused.part2
  part3 := .inl unused.part3
  zero := by
    rw [unused.part3]
    nofun

section Zeros
variable [FloatOps F]

def Same (x x' : F) : Prop := x = x' ∨ FloatOps.isZero x = true ∧ FloatOps.isZero x' = true

theorem Same.isZero {x x' : F} (same : Same x x') : FloatOps.isZero x = FloatOps.isZero x' := by
  rcases same with rfl | ⟨zero, zero'⟩
  · rfl
  · rw [zero, zero']

theorem Same.add [Zero F] [Add F] (laws : ZeroLaws F) {x x' : F} (same : Same x x') (y : F) : Same (x + y) (x' + y) := by
  rcases same with rfl | ⟨zero, zero'⟩
  · exact .inl rfl
  · exact laws.add x x' y zero zero'

theorem same_of_zeros {v v' : List F} (length : v.length = v'.length) (zero : ∀ x ∈ v, FloatOps.isZero x = true)
    (zero' : ∀ x ∈ v', FloatOps.isZero x = true) : List.Forall₂ Same v v' := by
  rw [List.forall₂_iff_get]
  refine ⟨length, fun i below below' => .inr ⟨?_, ?_⟩⟩
  · exact zero _ (List.get_mem v _)
  · exact zero' _ (List.get_mem v' _)

end Zeros

section Cells
variable {R : F → F → Prop} {v v' : List F}

theorem at'_alike (same : List.Forall₂ R v v') (i : Nat) : Alike R (at' v i) (at' v' i) := by
  rw [at', at']
  induction same generalizing i with
  | nil => exact .error Fault.undefined
  | cons here _ ih =>
    cases i with
    | zero => exact .ok here
    | succ i => exact ih i

theorem set_same (same : List.Forall₂ R v v') (i : Nat) {x x' : F} (value : R x x') :
    List.Forall₂ R (v.set i x) (v'.set i x') := by
  induction same generalizing i with
  | nil => exact .nil
  | cons here later ih =>
    cases i with
    | zero => exact .cons value later
    | succ i => exact .cons here (ih i)

theorem setAt_alike (same : List.Forall₂ R v v') (i : Nat) {x x' : F} (value : R x x') :
    Alike (List.Forall₂ R) (setAt v i x) (setAt v' i x') := by
  rw [setAt, setAt, same.length_eq]
  split
  · exact .ok (set_same same i value)
  · exact .error Fault.undefined

end Cells

section Agreement
variable [Zero F] [Add F] [Sub F] [Mul F] [FloatOps F] {ds : SparseDataset F} {v : List F}

omit [Zero F] [Add F] [Mul F] in
theorem residuals_alike (dotOf : Row F → Except Fault F) {part2 part2' : List F} (length : part2.length = part2'.length) :
    Alike (fun now now' : List F => ∀ i < ds.data.length, now[i]? = now'[i]?)
      (residuals dotOf ds part2) (residuals dotOf ds part2') := by
  have stored := foldlM_alike (l := ds.data.zipIdx) (s := part2) (t := part2')
    (f := fun part2 sample => do
      let part1 ← dotOf sample.1
      setAt part2 sample.2 ((← at' ds.labels sample.2) - (← s1 part1)))
    (g := fun part2 sample => do
      let part1 ← dotOf sample.1
      setAt part2 sample.2 ((← at' ds.labels sample.2) - (← s1 part1)))
    (R := fun seen now now' => now.length = now'.length ∧ ∀ i < seen.length, now[i]? = now'[i]?)
    (by
      intro seen sample here now now' ⟨length, before⟩
      obtain ⟨position, _⟩ := getElem?_of_prefix_zipIdx here
      refine .bind_same fun part1 => .bind_same fun label => .bind_same fun y => ?_
      rw [setAt, setAt, length, position]
      split
      next inside =>
        refine .ok ⟨by rw [List.length_set, List.length_set, length], fun i bound => ?_⟩
        rcases Nat.decEq seen.length i with apart | rfl
        · rw [List.length_append, List.length_singleton] at bound
          rw [List.getElem?_set_ne apart, List.getElem?_set_ne apart]
          exact before i (by omega)
        · rw [List.getElem?_set_self (length ▸ inside), List.getElem?_set_self inside]
      next => exact .error Fault.undefined)
    ⟨length, nofun⟩
  exact stored.mono fun now now' state => by rw [← List.length_zipIdx]; exact state.2

omit [Sub F] in
theorem collect_alike (laws : ZeroLaws F) {part2 part2' : List F} (read : ∀ i < ds.data.length, part2[i]? = part2'[i]?)
    {part3 part3' : List F} (same : List.Forall₂ Same part3 part3') :
    Alike (fun s s' : List Int32 × List F => s.1 = s'.1 ∧ List.Forall₂ Same s.2 s'.2)
      (ds.data.zipIdx.foldlM (SparseLRModel.collect part2) ([], part3))
      (ds.data.zipIdx.foldlM (SparseLRModel.collect part2') ([], part3')) := by
  have start : ([] : List Int32) = [] ∧ List.Forall₂ Same part3 part3' := ⟨rfl, same⟩
  refine foldlM_alike (R := fun _ (s s' : List Int32 × List F) => s.1 = s'.1 ∧ List.Forall₂ Same s.2 s'.2) ?_ start
  intro seen sample here s s' state
  obtain ⟨position, row⟩ := getElem?_of_prefix_zipIdx here
  have residual : at' part2 sample.2 = at' part2' sample.2 := by
    rw [at', at', read sample.2 (position ▸ (List.getElem?_eq_some_iff.mp row).1)]
  refine foldlM_alike (R := fun _ (s s' : List Int32 × List F) => s.1 = s'.1 ∧ List.Forall₂ Same s.2 s'.2) ?_ state
  rintro feats feat _ s s' ⟨listed, same⟩
  rw [residual]
  refine .bind_same fun r => ?_
  refine Alike.bind (R := List.Forall₂ Same) ?_ fun part3 part3' same' => ?_
  · exact (at'_alike same _).bind fun x x' value => setAt_alike same _ (value.add laws _)
  · exact .ok ⟨by rw [listed], same'⟩

omit [Sub F] in
theorem emit_alike [OfNat F 2] (config : Configuration F) (weights : List F) (uniqueIndices : List Int32)
    {part3 part3' : List F} (same : List.Forall₂ Same part3 part3') :
    Alike (fun s s' : List F × Row F => List.Forall₂ Same s.1 s'.1 ∧ s.2 = s'.2)
      (uniqueIndices.foldlM (SparseLRModel.emit config weights) (part3, []))
      (uniqueIndices.foldlM (SparseLRModel.emit config weights) (part3', [])) := by
  have start : List.Forall₂ Same part3 part3' ∧ ([] : Row F) = [] := ⟨same, rfl⟩
  refine foldlM_alike (R := fun _ (s s' : List F × Row F) => List.Forall₂ Same s.1 s'.1 ∧ s.2 = s'.2) ?_ start
  intro seen index _ ⟨part3, res⟩ ⟨part3', res'⟩ ⟨same, entries⟩
  dsimp only at same entries
  subst entries
  refine (at'_alike same _).bind fun value value' found => ?_
  rw [found.isZero]
  split
  next => exact .ok ⟨same, rfl⟩
  next nonzero =>
    rcases found with rfl | ⟨_, zero⟩
    · refine (setAt_alike same _ (.inl rfl)).bind fun cleared cleared' same' => .bind_same fun weight => ?_
      dsimp only
      split
      next => exact .ok ⟨same', rfl⟩
      next => exact .ok ⟨same', rfl⟩
    · exact (nonzero zero).elim

end Agreement

section Steps
variable [Zero F] [Add F] [FloatOps F] {bits size : Nat} {m m' : SparseLRModel F} {config : Configuration F}

omit [Zero F] [Add F] in
theorem Clean.sized (clean : Clean bits size m) : m.part3 = [] ∨ m.part3.length = 2 ^ bits :=
  clean.part3.imp_right And.right

theorem allocate_zero (laws : ZeroLaws F) (clean : Clean bits size m) {n : Except Fault Nat} {start : List F}
    (allocated : SparseLRModel.allocate m.part3 n = .ok start) : ∀ x ∈ start, FloatOps.isZero x = true := by
  intro x member
  rcases mem_allocate allocated x member with rfl | before
  · exact laws.zero
  · exact clean.zero x before

theorem allocate_alike (laws : ZeroLaws F) (clean : Clean bits size m) (clean' : Clean bits size m')
    (modelBits : config.modelBits = bits) :
    Alike (List.Forall₂ Same) (SparseLRModel.allocate m.part3 (SparseLRModel.sparseBlock config))
      (SparseLRModel.allocate m'.part3 (SparseLRModel.sparseBlock config)) := by
  cases block : SparseLRModel.sparseBlock config with
  | ok n =>
    obtain ⟨_, rfl⟩ := SparseLRModel.sparseBlock_ok block
    rw [modelBits]
    obtain ⟨start, allocated, length⟩ := allocate_ok clean.sized
    obtain ⟨start', allocated', length'⟩ := allocate_ok clean'.sized
    rw [allocated, allocated']
    exact .ok (same_of_zeros (length.trans length'.symm) (allocate_zero laws clean allocated)
      (allocate_zero laws clean' allocated'))
  | error fault =>
    have large : ¬ bits < 31 := fun small => by
      rw [SparseLRModel.sparseBlock_small (modelBits ▸ small)] at block
      cases block
    have none := clean.part3.resolve_right fun used => large used.1
    have none' := clean'.part3.resolve_right fun used => large used.1
    rw [none, none']
    exact .error fault

variable [Sub F] [Mul F] [OfNat F 2]

theorem on_alike (laws : ZeroLaws F) (clean : Clean bits size m) (clean' : Clean bits size m') {c : Call F}
    (modelBits : c.config.modelBits = bits) (minibatchSize : c.config.minibatchSize = size) :
    Alike (fun s s' => s.2 = s'.2) (c.on m) (c.on m') := by
  have ensured : Alike (fun a a' : SparseLRModel F => a.weightsSparse = c.weights ∧ a'.weightsSparse = c.weights ∧
      a.uniqueIndices = [] ∧ a'.uniqueIndices = [] ∧ a.part2.length = a'.part2.length ∧
      List.Forall₂ Same a.part3 a'.part3)
      ({ m with weightsSparse := c.weights }.ensurePreallocatedVectors c.config)
      ({ m' with weightsSparse := c.weights }.ensurePreallocatedVectors c.config) := by
    obtain ⟨scratch, allocated, length⟩ := allocate_ok clean.part2
    obtain ⟨scratch', allocated', length'⟩ := allocate_ok clean'.part2
    refine (allocate_alike laws clean clean' modelBits).bind fun start start' same => ?_
    rw [minibatchSize]
    dsimp only
    rw [bind_of_ok allocated, bind_of_ok allocated']
    exact .ok ⟨rfl, rfl, rfl, rfl, length.trans length'.symm, same⟩
  refine ensured.bind fun a a' ⟨weights, weights', listed, listed', length, same⟩ => ?_
  rw [weights, weights', listed, listed']
  refine (residuals_alike _ length).bind fun part2 part2' read => ?_
  refine (collect_alike laws read same).bind fun s s' ⟨indices, same'⟩ => ?_
  dsimp only
  rw [indices]
  exact (emit_alike c.config c.weights s'.1 same').bind fun t t' ⟨_, entries⟩ => .ok (by rw [entries])

theorem on_clean (laws : ZeroLaws F) (clean : Clean bits size m) {c : Call F}
    (modelBits : c.config.modelBits = bits) (minibatchSize : c.config.minibatchSize = size) {g : LRSparseGradient F}
    (done : c.on m = .ok (m', g)) : Clean bits size m' := by
  obtain ⟨start, computed⟩ := minibatchGradSparse_ends laws.zero done
  have block : bits < 31 ∧ start.length = 2 ^ bits := by
    have allocated := computed.allocated
    cases sized : SparseLRModel.sparseBlock c.config with
    | ok n =>
      obtain ⟨small, rfl⟩ := SparseLRModel.sparseBlock_ok sized
      rw [sized] at allocated
      rw [modelBits] at small allocated
      exact ⟨small, scratch_length clean.sized allocated⟩
    | error fault =>
      have large : ¬ bits < 31 := fun small => by
        rw [SparseLRModel.sparseBlock_small (modelBits ▸ small)] at sized
        cases sized
      rw [clean.part3.resolve_right fun used => large used.1, sized] at allocated
      cases allocated
  obtain ⟨part2, allocated, length⟩ := computed.part2
  constructor
  · exact .inr (length.trans (scratch_length clean.part2 (minibatchSize ▸ allocated)))
  · exact .inr ⟨block.1, computed.length.trans block.2⟩
  · intro x member
    rcases computed_cells computed (modelBits ▸ block.1) (modelBits ▸ block.2) x member with cleared | before
    · exact cleared
    · exact allocate_zero laws clean computed.allocated x before

def sigmoidError : Fault := .exception "s_1 generated nan/inf"

theorem on_settles (clean : Clean bits size m) (small : bits < 31) {c : Call F} (fits : c.Fits bits size) :
    Settles (fun _ => True) (· = sigmoidError) (c.on m) := by
  have inside : ∀ index ∈ indices c.ds, cell index < 2 ^ bits := by
    intro index listed
    obtain ⟨natural, bound⟩ := fits.inside index listed
    exact cell_lt natural bound
  have block : SparseLRModel.sparseBlock c.config = .ok (2 ^ bits) := by
    rw [SparseLRModel.sparseBlock, fits.modelBits, if_pos small]
  obtain ⟨start, allocated, length⟩ := allocate_ok clean.sized
  obtain ⟨scratch, allocated', length'⟩ := allocate_ok clean.part2
  rw [← block] at allocated
  rw [← fits.minibatchSize] at allocated'
  have sigmoids : ∀ x : F, Settles (fun _ => True) (· = sigmoidError) (s1 x) := by
    intro x
    rw [s1]
    split
    next => exact .ok trivial
    next => exact .error rfl
  have first := residuals_settles (SparseLRModel.sparseDot c.weights) c.ds scratch
    (fun row sample => sparseDot_ok fun feat here => fits.block ▸ inside feat.1 (mem_indices sample here))
    sigmoids fits.labels (length' ▸ fits.few)
  cases computed : residuals (SparseLRModel.sparseDot c.weights) c.ds scratch with
  | ok part2 =>
    obtain ⟨t, done⟩ := sparse_ok_of_residuals (m := { m with weightsSparse := c.weights }) allocated allocated' computed
      (length ▸ inside) (fits.block ▸ inside)
    rw [Call.on, done]
    exact .ok trivial
  | error fault =>
    rw [computed] at first
    cases first with
    | error cause =>
      have stopped : c.on m = .error fault := by
        rw [Call.on, SparseLRModel.minibatchGradSparse, SparseLRModel.ensurePreallocatedVectors, bind_of_ok allocated,
          bind_of_ok allocated']
        change (residuals (SparseLRModel.sparseDot c.weights) c.ds scratch >>= _) = _
        rw [computed]
        rfl
      rw [stopped]
      exact .error cause

theorem run_clean (laws : ZeroLaws F) {own : SparseLRModel F} (clean : Clean bits size own) {calls : List (Call F)}
    (fits : ∀ c ∈ calls, c.Fits bits size) (ran : run own calls = .ok m) : Clean bits size m := by
  apply foldlM_ends (P := fun _ m => Clean bits size m) ?_ clean ran
  intro seen c here m next clean done
  cases one : c.on m with
  | error fault =>
    rw [one] at done
    cases done
  | ok s =>
    rw [one] at done
    cases done
    have fit := fits c (mem_of_here here)
    exact on_clean laws clean fit.modelBits fit.minibatchSize one

/-- Whatever calls there have been, the next one finds clean vectors and returns, or throws, what it would on a new model. -/
theorem scratch_never_leaks (laws : ZeroLaws F) {own : SparseLRModel F} (unused : Unused own) (bits size : Nat)
    (calls : List (Call F)) (fits : ∀ c ∈ calls, c.Fits bits size) (ran : run own calls = .ok m) :
    (∀ x ∈ m.part3, FloatOps.isZero x = true) ∧ ∀ c : Call F, c.Fits bits size →
      (∀ fresh, Unused fresh → (c.on m).map (·.2) = (c.on fresh).map (·.2)) ∧
      (∀ m' g, c.on m = .ok (m', g) → (g.weights.map (·.1)).Nodup) ∧
      (bits < 31 → Settles (fun _ => True) (· = sigmoidError) (c.on m)) := by
  have clean := run_clean laws unused.clean fits ran
  refine ⟨clean.zero, fun c fit => ⟨fun fresh new => ?_, fun m' g done => ?_, fun small => on_settles clean small fit⟩⟩
  · exact (on_alike laws clean new.clean fit.modelBits fit.minibatchSize).eq_of_map fun s t same => same
  · obtain ⟨start, computed⟩ := minibatchGradSparse_ends laws.zero done
    exact computed.emitted.nodup

end Steps

section Runs

theorem exactZeros : ZeroLaws ℚ where
  zero := rfl
  add := by
    intro x x' y zero zero'
    rw [exact_zero] at zero zero'
    rw [zero, zero']
    exact .inl rfl

def cancelling : Call ℚ where
  weights := [0, 1 / 2]
  ds := ⟨[[(0, 1), (1, 2)], [(0, 0), (1, 3)]], [1, 0]⟩
  config := { GradientsAgree.settings with minibatchSize := 2 }

theorem cancelling_fits : cancelling.Fits 1 2 where
  modelBits := rfl
  minibatchSize := rfl
  block := rfl
  few := by decide
  labels := rfl
  inside := List.forall_mem_cons.mpr ⟨by decide, List.forall_mem_cons.mpr ⟨by decide, List.forall_mem_cons.mpr
    ⟨by decide, List.forall_mem_singleton.mpr (by decide)⟩⟩⟩

def reweighted : Call ℚ := { cancelling with weights := [3, 5] }

theorem scratch_never_leaks_twice : ∃ m, run GradientsAgree.sparse [cancelling, reweighted] = .ok m ∧
    (cancelling.on m).map (·.2) = (cancelling.on (SparseLRModel.ofSize 0)).map (·.2) := by
  have calls : ∀ c ∈ [cancelling, reweighted], c.Fits 1 2 :=
    List.forall_mem_cons.mpr ⟨cancelling_fits, List.forall_mem_singleton.mpr { cancelling_fits with block := rfl }⟩
  have returns : (run GradientsAgree.sparse [cancelling, reweighted]).isOk = true := by decide +kernel
  cases ran : run GradientsAgree.sparse [cancelling, reweighted] with
  | ok m =>
    have leaks := scratch_never_leaks exactZeros ⟨rfl, rfl⟩ 1 2 _ calls ran
    exact ⟨m, rfl, (leaks.2 cancelling cancelling_fits).1 _ (ofSize_unused 0)⟩
  | error fault =>
    rw [ran] at returns
    cases returns

end Runs
end ScratchVectors

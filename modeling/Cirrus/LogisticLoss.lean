import Cirrus.AsyncUpdates
import Cirrus.LRCopies
import Cirrus.Lib.Logistic
import Cirrus.Training

/-!
`SparseLRModel::calc_loss`, the loss that the error task reports, and what the
gradients of the workers have to do with it over exact arithmetic.
-/
namespace LogisticLoss
open Gradients SparseLR GradientsAgree Loops LR

section Exact

noncomputable instance realFloats : FloatOps ℝ where
  sqrt := Real.sqrt
  sigmoid x := some (1 / (1 + Real.exp (-x)))
  isZero x := decide (x = 0)
  absGreater x y := decide (y < |x|)

/-- Exact arithmetic never leaves the reals, and adds in any order. -/
noncomputable def realLoss : LossOps ℝ where
  toExpOps := Softmax.realOps
  toString _ := ""
  pow2 x := x ^ 2
  dot v w := (List.zipWith (· * ·) v w).sum
  sum := List.sum
  equal a b := decide (a = b)
  isInteger x := decide (Int.fract x = 0)
  ofNat n := n
  toIndex x := if 0 ≤ x then some ⌊x⌋.toNat else none

/-- The value of a row at a cell. An index that occurs again adds to it. -/
def featureAt (row : Row ℝ) (c : Nat) : ℝ := ((row.filter fun e => cell e.1 = c).map Prod.snd).sum

def sampleOf (ds : SparseDataset ℝ) (sample : Row ℝ × Nat) : Logistic.Sample Nat where
  features := featureAt sample.1
  label := ds.labels.getD sample.2 0

def samples (ds : SparseDataset ℝ) : List (Logistic.Sample Nat) := ds.data.zipIdx.map (sampleOf ds)

def support (ds : SparseDataset ℝ) : Finset Nat := ((indices ds).map cell).toFinset

def weightOf (weights : List ℝ) (c : Nat) : ℝ := weights.getD c 0

variable {ds : SparseDataset ℝ} {weights : List ℝ}

theorem sigmoid_real (x : ℝ) : FloatOps.sigmoid x = some (Real.sigmoid x) := by
  rw [Real.sigmoid_def, ← one_div]
  rfl

theorem featureAt_cons (feat : Int32 × ℝ) (row : Row ℝ) (c : Nat) :
    featureAt (feat :: row) c = (if cell feat.1 = c then feat.2 else 0) + featureAt row c := by
  unfold featureAt
  by_cases here : cell feat.1 = c
  · simp [here]
  · simp [here]

theorem score_row {S : Finset Nat} {row : Row ℝ} (inside : ∀ feat ∈ row, cell feat.1 ∈ S) :
    ∑ c ∈ S, featureAt row c * weightOf weights c = dot weights row := by
  have folded : ∀ start : ℝ, row.foldl (fun part1 feat => part1 + feat.2 * weightAt weights feat.1) start =
      start + ∑ c ∈ S, featureAt row c * weightOf weights c := by
    induction row with
    | nil => simp [featureAt]
    | cons feat rest ih =>
      intro start
      obtain ⟨first, others⟩ := List.forall_mem_cons.mp inside
      rw [List.foldl_cons, ih others]
      simp only [featureAt_cons, add_mul, Finset.sum_add_distrib, ite_mul, zero_mul]
      rw [Finset.sum_ite_eq S, if_pos first, add_assoc]
      rfl
  exact ((folded 0).trans (zero_add _)).symm

theorem inside_support {row : Row ℝ} (sample : row ∈ ds.data) : ∀ feat ∈ row, cell feat.1 ∈ support ds :=
  fun _ here => List.mem_toFinset.mpr (List.mem_map_of_mem (mem_indices sample here))

theorem score_sample {sample : Row ℝ × Nat} (member : sample ∈ ds.data.zipIdx) :
    (sampleOf ds sample).score (support ds) (weightOf weights) = dot weights sample.1 :=
  score_row (inside_support (List.fst_mem_of_mem_zipIdx member))

theorem residual_sample {sample : Row ℝ × Nat} (member : sample ∈ ds.data.zipIdx) :
    residual weights ds sample.2 = (sampleOf ds sample).label -
      Real.sigmoid ((sampleOf ds sample).score (support ds) (weightOf weights)) := by
  have found := List.mk_mem_zipIdx_iff_getElem?.mp member
  have row : ds.data.getD sample.2 [] = sample.1 := by rw [List.getD, found]; rfl
  rw [SparseLR.residual, row, sigmoid_real, score_sample member]
  rfl

theorem shares_row (row : Row ℝ) (r : ℝ) (index : Int32) :
    (((row.map fun feat => (feat.1, feat.2 * r)).filter fun e => e.1 = index).map Prod.snd).sum =
      r * featureAt row (cell index) := by
  induction row with
  | nil => simp [featureAt]
  | cons feat rest ih =>
    rw [featureAt_cons, List.map_cons, List.filter_cons]
    by_cases here : feat.1 = index
    · rw [if_pos (by simpa using here), List.map_cons, List.sum_cons, ih, if_pos (by rw [here])]
      ring
    · have apart : ¬ cell feat.1 = cell index := fun same => here (cell_injective same)
      rw [if_neg (by simpa using here), ih, if_neg apart, zero_add]

theorem accumulated_descent (index : Int32) :
    accumulated weights ds 0 index = Logistic.descent (support ds) (samples ds) (weightOf weights) (cell index) := by
  rw [accumulated, Cells.sumFor_eq_sum, zero_add, shares, List.filter_flatMap, List.map_flatMap, List.flatMap_def,
    List.sum_flatten, List.map_map, Logistic.descent, samples, List.map_map]
  congr 1
  apply List.map_congr_left
  intro sample member
  rw [Function.comp_apply, shares_row, residual_sample member]
  rfl

local instance penalty_atLeastTwo : Nat.AtLeastTwo 2 := ⟨le_rfl⟩

/-- The entries of a gradient, without what the penalty adds to them. -/
def plainEntry (config : Configuration ℝ) (weights : List ℝ) (e : Int32 × ℝ) : ℝ :=
  e.2 - weightAt weights e.1 * 2 * config.epsilon

theorem gradient_entries {config : Configuration ℝ} (unfiltered : config.useGradThreshold = false) {g : LRSparseGradient ℝ}
    (computed : Training.gradientAt config ds weights = .ok g) :
    (g.weights.map (·.1)).Nodup ∧
    (∀ e ∈ g.weights, e.1 ∈ indices ds ∧ plainEntry config weights e =
      Logistic.descent (support ds) (samples ds) (weightOf weights) (cell e.1)) ∧
    ∀ index ∈ indices ds, index ∉ g.weights.map (·.1) →
      Logistic.descent (support ds) (samples ds) (weightOf weights) (cell index) = 0 := by
  have zero : FloatOps.isZero (0 : ℝ) = true := decide_eq_true rfl
  obtain ⟨⟨m', g'⟩, done, same⟩ : ∃ t, (({ SparseLRModel.ofSize 0 with weightsSparse := weights } :
      SparseLRModel ℝ).minibatchGradSparse ds config) = .ok t ∧ t.2 = g := by
    unfold Training.gradientAt at computed
    cases run : ({ SparseLRModel.ofSize 0 with weightsSparse := weights } : SparseLRModel ℝ).minibatchGradSparse ds config with
    | error fault => rw [run] at computed; cases computed
    | ok t =>
      rw [run] at computed
      cases computed
      exact ⟨t, rfl, rfl⟩
  subst same
  obtain ⟨start, ends⟩ := minibatchGradSparse_ends zero done
  have value : ∀ index, valueAt ({ SparseLRModel.ofSize 0 with weightsSparse := weights } : SparseLRModel ℝ) ds index =
      Logistic.descent (support ds) (samples ds) (weightOf weights) (cell index) := fun index => accumulated_descent index
  refine ⟨ends.emitted.nodup, fun e member => ?_, fun index listed absent => ?_⟩
  · obtain ⟨listed, _, _, final⟩ := (ends.emitted.mem e).mp member
    refine ⟨listed, ?_⟩
    rw [plainEntry, final, ← value, finalGrad]
    ring
  · by_contra something
    apply absent
    rw [List.mem_map]
    refine ⟨(index, finalGrad config weights (valueAt _ ds index) index),
      (ends.emitted.mem _).mpr ⟨listed, ?_, ?_, rfl⟩, rfl⟩
    · rw [value]
      exact decide_eq_false something
    · rw [Passes, unfiltered]
      exact Bool.noConfusion

theorem gradient_sum {config : Configuration ℝ} (unfiltered : config.useGradThreshold = false) {g : LRSparseGradient ℝ}
    (computed : Training.gradientAt config ds weights = .ok g) (d : Nat → ℝ) :
    (g.weights.map fun e => plainEntry config weights e * d (cell e.1)).sum =
      ∑ c ∈ support ds, Logistic.descent (support ds) (samples ds) (weightOf weights) c * d c := by
  obtain ⟨nodup, entries, others⟩ := gradient_entries unfiltered computed
  have listed : (g.weights.map fun e => plainEntry config weights e * d (cell e.1)) = (g.weights.map (·.1)).map fun index =>
      Logistic.descent (support ds) (samples ds) (weightOf weights) (cell index) * d (cell index) := by
    rw [List.map_map]
    apply List.map_congr_left
    intro e member
    rw [(entries e member).2]
    rfl
  have image : support ds = (indices ds).toFinset.image cell := by
    ext c
    simp [support]
  rw [listed, ← List.sum_toFinset _ nodup, image, Finset.sum_image fun a _ b _ same => cell_injective same, ← image]
  apply Finset.sum_subset
  · intro index member
    obtain ⟨e, there, rfl⟩ := List.mem_map.mp (List.mem_toFinset.mp member)
    exact List.mem_toFinset.mpr (entries e there).1
  · intro index member absent
    rw [others index (List.mem_toFinset.mp member) fun there => absent (List.mem_toFinset.mpr there), zero_mul]

/-- A minibatch that the vectors of a worker have room for, with probabilities for labels. -/
structure Labelled (config : Configuration ℝ) (ds : SparseDataset ℝ) : Prop where
  modelBits : config.modelBits < 31
  few : ds.data.length ≤ config.minibatchSize
  labels : ds.labels.length = ds.data.length
  probabilities : ∀ y ∈ ds.labels, 0 ≤ y ∧ y ≤ 1
  natural : ∀ index ∈ indices ds, 0 ≤ index.toInt ∧ index.toInt < 2 ^ config.modelBits

variable {config : Configuration ℝ}

theorem Labelled.inside (known : Labelled config ds) {index : Int32} (listed : index ∈ indices ds) :
    cell index < 2 ^ config.modelBits :=
  cell_lt (known.natural index listed).1 (known.natural index listed).2

theorem Labelled.label (known : Labelled config ds) {sample : Row ℝ × Nat} (member : sample ∈ ds.data.zipIdx) :
    ds.labels[sample.2]? = some (ds.labels.getD sample.2 0) ∧
      0 ≤ ds.labels.getD sample.2 0 ∧ ds.labels.getD sample.2 0 ≤ 1 := by
  have found := List.mk_mem_zipIdx_iff_getElem?.mp member
  have bound : sample.2 < ds.labels.length := known.labels ▸ (List.getElem?_eq_some_iff.mp found).1
  have label : ds.labels[sample.2]? = some (ds.labels.getD sample.2 0) := by
    rw [List.getD_eq_getElem?_getD, List.getElem?_eq_getElem bound, Option.getD_some]
  exact ⟨label, known.probabilities _ (List.mem_of_getElem? label)⟩

theorem gradientAt_ok (known : Labelled config ds) (enough : 2 ^ config.modelBits ≤ weights.length) :
    ∃ g, Training.gradientAt config ds weights = .ok g := by
  obtain ⟨start, allocated, size⟩ : ∃ start : List ℝ,
      SparseLRModel.allocate [] (SparseLRModel.sparseBlock config) = .ok start ∧ start.length = 2 ^ config.modelBits := by
    rw [SparseLRModel.sparseBlock, if_pos known.modelBits]
    exact allocate_ok (Or.inl rfl)
  obtain ⟨scratch, allocated', size'⟩ : ∃ scratch : List ℝ,
      SparseLRModel.allocate [] (.ok config.minibatchSize) = .ok scratch ∧ scratch.length = config.minibatchSize :=
    allocate_ok (Or.inl rfl)
  obtain ⟨part2, computed⟩ : ∃ part2, residuals (SparseLRModel.sparseDot weights) ds scratch = .ok part2 :=
    residuals_ok scratch (fun row sample => sparseDot_ok fun feat here =>
      Nat.lt_of_lt_of_le (known.inside (mem_indices sample here)) enough) (fun x => ⟨_, sigmoid_real x⟩) known.labels (size' ▸ known.few)
  obtain ⟨t, done⟩ := sparse_ok_of_residuals (m := { SparseLRModel.ofSize 0 with weightsSparse := weights }) allocated
    allocated' computed (fun index listed => size ▸ known.inside listed)
    (fun index listed => Nat.lt_of_lt_of_le (known.inside listed) enough)
  exact ⟨t.2, by rw [Training.gradientAt, done]; rfl⟩

noncomputable def lossAt (ds : SparseDataset ℝ) (weights : List ℝ) : ℝ :=
  Logistic.total (support ds) (samples ds) (weightOf weights)

theorem logAux_real {v : ℝ} (positive : 0 < v) : logAux realLoss v = .ok (Real.log v) := by
  have nonzero : realLoss.equal v 0 = false := decide_eq_false positive.ne'
  rw [logAux, nonzero]
  rfl

theorem scored {row : Row ℝ} (inside : ∀ feat ∈ row, cell feat.1 < weights.length) :
    row.foldlM (fun r1 feat => do pure (r1 + (← at' weights (cell feat.1)) * feat.2)) (0 : ℝ) =
      .ok (dot weights row) := by
  unfold dot
  generalize (0 : ℝ) = start
  induction row generalizing start with
  | nil => rfl
  | cons feat rest ih =>
    obtain ⟨first, others⟩ := List.forall_mem_cons.mp inside
    rw [List.foldlM_cons, at'_of_lt first, List.foldl_cons]
    refine (ih others _).trans ?_
    rw [weightAt, List.getD_eq_getElem?_getD, List.getElem?_eq_getElem first, Option.getD_some, mul_comm]

theorem addLoss_real {m : SparseLRModel ℝ} (known : Labelled config ds) (enough : 2 ^ config.modelBits ≤ m.weights.length)
    {sample : Row ℝ × Nat} (member : sample ∈ ds.data.zipIdx) (s : ℝ × Nat) : ∃ wrongCount, m.addLoss realLoss ds.labels s sample =
      .ok (s.1 + Logistic.loss (ds.labels.getD sample.2 0) (dot m.weights sample.1), wrongCount) := by
  obtain ⟨label, natural, small⟩ := known.label member
  have inside : ∀ feat ∈ sample.1, cell feat.1 < m.weights.length :=
    fun feat here =>
      Nat.lt_of_lt_of_le (known.inside (mem_indices (List.fst_mem_of_mem_zipIdx member) here)) enough
  have probability : s1 (dot m.weights sample.1) = .ok (Real.sigmoid (dot m.weights sample.1)) :=
    s1_ok.mpr (sigmoid_real _)
  have fine : realLoss.less 0 (ds.labels.getD sample.2 0 * Real.log (Real.sigmoid (dot m.weights sample.1)) +
      (1 - ds.labels.getD sample.2 0) * Real.log (1 - Real.sigmoid (dot m.weights sample.1))) = false := by
    have nonneg := Logistic.loss_nonneg natural small (dot m.weights sample.1)
    rw [Logistic.loss_eq] at nonneg
    exact decide_eq_false (by linarith)
  have entropy : crossEntropy realLoss (ds.labels.getD sample.2 0) (Real.sigmoid (dot m.weights sample.1)) =
      .ok (ds.labels.getD sample.2 0 * Real.log (Real.sigmoid (dot m.weights sample.1)) +
        (1 - ds.labels.getD sample.2 0) * Real.log (1 - Real.sigmoid (dot m.weights sample.1))) := by
    rw [crossEntropy, bind_of_ok (logAux_real (sub_pos.mpr (Real.sigmoid_lt_one _))),
      bind_of_ok (logAux_real (Real.sigmoid_pos _))]
    rfl
  rw [SparseLRModel.addLoss, bind_of_ok (at'_ok.mpr label), SparseLRModel.probability, bind_of_ok (scored inside),
    probability, bind_of_ok (rfl : (Except.ok _ : Except Fault ℝ) = _), bind_of_ok entropy, addSample, if_neg (by rw [fine]; decide)]
  refine ⟨_, congrArg Except.ok (Prod.ext ?_ rfl)⟩
  rw [Logistic.loss_eq]
  ring

theorem calcLoss_real {m : SparseLRModel ℝ} (known : Labelled config ds) (enough : 2 ^ config.modelBits ≤ m.weights.length) :
    ∃ accuracy, m.calcLoss realLoss ds = .ok (lossAt ds m.weights, accuracy) := by
  have loop : ∃ t, ds.data.zipIdx.foldlM (m.addLoss realLoss ds.labels) (0, 0) = .ok t ∧
      t.1 = (ds.data.zipIdx.map fun sample => Logistic.loss (ds.labels.getD sample.2 0) (dot m.weights sample.1)).sum := by
    apply foldlM_gives (P := fun (seen : List (Row ℝ × Nat)) (s : ℝ × Nat) =>
      s.1 = (seen.map fun sample => Logistic.loss (ds.labels.getD sample.2 0) (dot m.weights sample.1)).sum) ?_ rfl
    intro seen sample here s before
    obtain ⟨wrongCount, round⟩ := addLoss_real known enough (mem_of_here here) s
    refine ⟨_, round, ?_⟩
    rw [before, List.map_append, List.sum_append]
    simp
  obtain ⟨⟨totalLoss, wrongCount⟩, ran, total⟩ := loop
  dsimp only at total
  have same : totalLoss = lossAt ds m.weights := by
    rw [lossAt, Logistic.total, samples, List.map_map]
    refine total.trans (congrArg List.sum (List.map_congr_left fun sample member => ?_))
    rw [Function.comp_apply, score_sample member]
    rfl
  have nonneg : 0 ≤ totalLoss := by
    rw [total]
    apply List.sum_nonneg
    intro x member
    obtain ⟨sample, there, rfl⟩ := List.mem_map.mp member
    obtain ⟨_, natural, small⟩ := known.label there
    exact Logistic.loss_nonneg natural small _
  have fine : realLoss.less totalLoss 0 = false := decide_eq_false (not_lt.mpr nonneg)
  rw [SparseLRModel.calcLoss, bind_of_ok ran, LR.lossOf, fine, ← same]
  exact ⟨_, rfl⟩

theorem sgdUpdate_weight {rate : ℝ} {m : SparseLRModel ℝ} {g : LRSparseGradient ℝ}
    {t : OptimizationMethod ℝ × SparseLRModel ℝ} (done : (OptimizationMethod.sgd rate).sgdUpdate m g = .ok t) (c : Nat) :
    t.2.weights[c]? = m.weights[c]?.map (· + rate * (g.weights.map fun e => e.2 * if cell e.1 = c then 1 else 0).sum) := by
  have each : ∀ l : Row ℝ, ((((l.map fun e => (cell e.1, rate * e.2)).filter fun e => e.1 = c).map Prod.snd).sum) =
      rate * (l.map fun e => e.2 * if cell e.1 = c then 1 else 0).sum := by
    intro l
    induction l with
    | nil => simp
    | cons e rest ih =>
      rw [List.map_cons, List.map_cons, List.sum_cons, List.filter_cons]
      by_cases here : cell e.1 = c
      · rw [if_pos (by simpa using here), List.map_cons, List.sum_cons, ih, if_pos here]
        ring
      · rw [if_neg (by simpa using here), ih, if_neg here]
        ring
  rw [AsyncUpdates.lr_sgdUpdate done]
  refine ((SparseLRModel.cells ℝ).load_addAll m _ c).trans ?_
  change m.weights[c]?.map _ = _
  congr 1
  funext x
  rw [Cells.sumFor_eq_sum]
  exact congrArg (x + ·) (each g.weights)

def squares (ds : SparseDataset ℝ) : ℝ := ((samples ds).map fun s => ∑ c ∈ support ds, s.features c ^ 2).sum

noncomputable def spread (ds : SparseDataset ℝ) (weights other : List ℝ) : ℝ :=
  (ds.data.map fun row => (dot other row - dot weights row) ^ 2).sum

def predicted (config : Configuration ℝ) (weights other : List ℝ) (g : LRSparseGradient ℝ) : ℝ :=
  (g.weights.map fun e => plainEntry config weights e * (weightAt other e.1 - weightAt weights e.1)).sum

theorem spread_eq (weights other : List ℝ) : spread ds weights other = ((samples ds).map fun s =>
    (s.score (support ds) (weightOf other) - s.score (support ds) (weightOf weights)) ^ 2).sum := by
  rw [samples, List.map_map]
  have rows : spread ds weights other =
      (ds.data.zipIdx.map fun sample => (dot other sample.1 - dot weights sample.1) ^ 2).sum := by
    have split : ds.data = ds.data.zipIdx.map Prod.fst := (List.zipIdx_map_fst 0 ds.data).symm
    rw [spread]
    conv_lhs => rw [split]
    rw [List.map_map]
    rfl
  rw [rows]
  congr 1
  apply List.map_congr_left
  intro sample member
  rw [Function.comp_apply, score_sample member, score_sample member]

/-- Without the penalty, a gradient is the direction in which the loss falls: for any other weights the loss is at least
what the gradient predicts, and at most an eighth of the square more. So a step of SGD lowers it, at a small learning rate. -/
theorem gradient_descends (config : Configuration ℝ) (unfiltered : config.useGradThreshold = false) (ds : SparseDataset ℝ)
    (known : Labelled config ds) (m : SparseLRModel ℝ)
    {size : Nat} (sized : OptimizationMethod.HasSize m size) (enough : 2 ^ config.modelBits ≤ size) :
    ∃ g loss accuracy, Training.gradientAt config ds m.weights = .ok g ∧ m.calcLoss realLoss ds = .ok (loss, accuracy) ∧
      (∀ m' : SparseLRModel ℝ, 2 ^ config.modelBits ≤ m'.weights.length →
        ∃ loss' accuracy', m'.calcLoss realLoss ds = .ok (loss', accuracy') ∧
          loss - predicted config m.weights m'.weights g ≤ loss' ∧
          loss' ≤ loss - predicted config m.weights m'.weights g + spread ds m.weights m'.weights / 8) ∧
      (config.epsilon = 0 → ∀ rate, ∃ method m' loss' accuracy',
        (OptimizationMethod.sgd rate).sgdUpdate m g = .ok (method, m') ∧ m'.calcLoss realLoss ds = .ok (loss', accuracy') ∧
          loss' ≤ loss - rate * (1 - rate * squares ds / 8) * (g.weights.map fun e => e.2 ^ 2).sum) := by
  obtain ⟨g, computed⟩ := gradientAt_ok known (sized.weights.symm ▸ enough)
  obtain ⟨accuracy, here⟩ := calcLoss_real known (sized.weights.symm ▸ enough)
  refine ⟨g, _, accuracy, computed, here, ?_, ?_⟩
  · intro m' enough'
    obtain ⟨accuracy', there⟩ := calcLoss_real known enough'
    have slope : predicted config m.weights m'.weights g = ∑ c ∈ support ds, Logistic.descent (support ds) (samples ds)
        (weightOf m.weights) c * (weightOf m'.weights c - weightOf m.weights c) :=
      gradient_sum unfiltered computed fun c => weightOf m'.weights c - weightOf m.weights c
    rw [slope, spread_eq]
    exact ⟨_, accuracy', there, Logistic.total_ge _ _ _ _, Logistic.total_le _ _ _ _⟩
  · intro plain rate
    obtain ⟨_, entries, _⟩ := gradient_entries unfiltered computed
    obtain ⟨⟨method, m'⟩, done, sized'⟩ := OptimizationMethod.sgdUpdate_gives (.sgd rate) sized
      fun e member => Nat.lt_of_lt_of_le (known.inside (entries e member).1) enough
    obtain ⟨accuracy', there⟩ := calcLoss_real known (sized'.weights.symm ▸ enough)
    have entry : ∀ e : Int32 × ℝ, plainEntry config m.weights e = e.2 := by
      intro e
      rw [plainEntry, plain]
      ring
    have sums : ∀ d : Nat → ℝ, (g.weights.map fun e => e.2 * d (cell e.1)).sum =
        ∑ c ∈ support ds, Logistic.descent (support ds) (samples ds) (weightOf m.weights) c * d c := by
      intro d
      have sum := gradient_sum unfiltered computed d
      simpa only [entry] using sum
    have step : ∀ c ∈ support ds, weightOf m'.weights c = weightOf m.weights c +
        rate * Logistic.descent (support ds) (samples ds) (weightOf m.weights) c := by
      intro c member
      obtain ⟨index, listed, rfl⟩ := List.mem_map.mp (List.mem_toFinset.mp member)
      have bound : cell index < m.weights.length :=
        sized.weights.symm ▸ Nat.lt_of_lt_of_le (known.inside listed) enough
      have one := sums fun c => if c = cell index then 1 else 0
      simp only [mul_ite, mul_one, mul_zero, Finset.sum_ite_eq', if_pos member] at one
      have new := sgdUpdate_weight done (cell index)
      rw [List.getElem?_eq_getElem bound] at new
      rw [weightOf, weightOf, List.getD_eq_getElem?_getD, List.getD_eq_getElem?_getD, new, List.getElem?_eq_getElem bound,
        ← one]
      simp
    have norm : (g.weights.map fun e => e.2 ^ 2).sum =
        ∑ c ∈ support ds, Logistic.descent (support ds) (samples ds) (weightOf m.weights) c ^ 2 := by
      rw [← Finset.sum_congr rfl fun c _ => (sq _).symm, ← sums]
      congr 1
      apply List.map_congr_left
      intro e member
      rw [← (entries e member).2, entry, sq]
    rw [norm]
    exact ⟨method, m', _, accuracy', done, there, Logistic.total_step _ _ step⟩

noncomputable def oneSample : SparseDataset ℝ := { data := [[(0, 1)]], labels := [1] }

noncomputable def settings : Configuration ℝ :=
  { learningRate := 1, modelBits := 0, minibatchSize := 1, epsilon := 0, gradThreshold := 0 }

theorem gradient_descends_oneSample : ∃ g loss loss' accuracy accuracy' method m',
    Training.gradientAt settings oneSample [0] = .ok g ∧
    (SparseLRModel.ofSize 1).calcLoss realLoss oneSample = .ok (loss, accuracy) ∧
    (OptimizationMethod.sgd 1).sgdUpdate (SparseLRModel.ofSize 1) g = .ok (method, m') ∧
    m'.calcLoss realLoss oneSample = .ok (loss', accuracy') ∧
      loss' ≤ loss - 1 * (1 - 1 * squares oneSample / 8) * (g.weights.map fun e => e.2 ^ 2).sum := by
  have known : Labelled settings oneSample := by
    refine ⟨Nat.succ_pos 30, Nat.le_refl 1, rfl, ?_, ?_⟩
    · exact List.forall_mem_singleton.mpr ⟨zero_le_one, le_refl 1⟩
    · exact List.forall_mem_singleton.mpr ⟨Int.le_refl 0, Int.zero_lt_one⟩
  obtain ⟨g, loss, accuracy, computed, here, _, steps⟩ :=
    gradient_descends settings rfl oneSample known (SparseLRModel.ofSize 1) ⟨rfl, rfl⟩
      (Nat.le_refl 1)
  obtain ⟨method, m', loss', accuracy', done, there, falls⟩ := steps rfl 1
  exact ⟨g, loss, loss', accuracy, accuracy', method, m', computed, here, done, there, falls⟩

end Exact
end LogisticLoss

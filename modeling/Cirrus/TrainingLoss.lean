import Mathlib.Analysis.InnerProductSpace.PiL2
import Cirrus.Lib.DelayedDescent
import Cirrus.LogisticLoss
import Cirrus.TrainingRuns

/-!
What the workers and the server together do to the loss. A gradient is that of
weights that others have changed since, so a step may raise it; but the losses
that the workers meet do not stay above those of any weights that there are. As
in `Training`, no two requests are handled at the same time.
-/
namespace TrainingLoss
open Gradients SparseLR GradientsAgree LogisticLoss ServerTask Training Transition
variable {I B : Type}

structure Made (I : Type) where
  worker : I
  round : Nat
  /-- How many updates the server had when the worker got its weights. -/
  readAt : Nat
  gradient : LRSparseGradient ℝ

/-- Neither a penalty nor a threshold, and labels that are probabilities. -/
structure Plain (x : Setup I B ℝ) : Prop where
  epsilon : x.config.epsilon = 0
  unfiltered : x.config.useGradThreshold = false
  probabilities : ∀ i round, ∀ y ∈ (x.getNext i round).dataset.labels, 0 ≤ y ∧ y ≤ 1

def minibatch (x : Setup I B ℝ) (e : Made I) : SparseDataset ℝ := (x.getNext e.worker e.round).dataset

/-- The models that the server has had, and the updates that made them. -/
structure Trajectory (x : Setup I B ℝ) (rate : ℝ) (updates : Nat) (made : Nat → Made I) (model : Nat → SparseLRModel ℝ) :
    Prop where
  readFirst : ∀ t < updates, (made t).readAt ≤ t
  gradient : ∀ t < updates, ∃ g, gradientAt x.config (minibatch x (made t)) (model (made t).readAt).weights = .ok g ∧
    (made t).gradient = { g with version := UInt64.ofNat ((made t).round + 1) }
  applied : ∀ t < updates, (OptimizationMethod.sgd rate).sgdUpdate (model t) (made t).gradient = .ok (.sgd rate, model (t + 1))
  turns : ∀ t t', t < t' → t' < updates → (made t).worker = (made t').worker → (made t).round < (made t').round

section Vectors
variable {ds : SparseDataset ℝ} {config : Configuration ℝ} {n : Nat}

local instance vectors_atLeastTwo : Nat.AtLeastTwo 2 := ⟨le_rfl⟩

noncomputable def vector (n : Nat) (d : Nat → ℝ) : EuclideanSpace ℝ (Fin n) := WithLp.toLp 2 fun c => d c

def direction (g : LRSparseGradient ℝ) (c : Nat) : ℝ := (g.weights.map fun e => e.2 * if cell e.1 = c then 1 else 0).sum

theorem inner_vector (u v : Nat → ℝ) : inner ℝ (vector n u) (vector n v) = ∑ c ∈ Finset.range n, u c * v c := by
  rw [PiLp.inner_apply, ← Fin.sum_univ_eq_sum_range fun c => u c * v c]
  exact Finset.sum_congr rfl fun c _ => mul_comm _ _

theorem inner_direction {g : LRSparseGradient ℝ} (inside : ∀ e ∈ g.weights, cell e.1 < n) (d : Nat → ℝ) :
    inner ℝ (vector n (direction g)) (vector n d) = (g.weights.map fun e => e.2 * d (cell e.1)).sum := by
  rw [inner_vector]
  unfold direction
  generalize g.weights = entries at inside
  induction entries with
  | nil => simp
  | cons e rest ih =>
    obtain ⟨first, others⟩ := List.forall_mem_cons.mp inside
    simp only [List.map_cons, List.sum_cons, add_mul, Finset.sum_add_distrib, ih others]
    congr 1
    simp [first]

theorem norm_vector (d : Nat → ℝ) : ‖vector n d‖ ^ 2 = ∑ c ∈ Finset.range n, d c ^ 2 := by
  rw [← real_inner_self_eq_norm_sq, inner_vector]
  exact Finset.sum_congr rfl fun c _ => (sq _).symm

theorem vector_sub (u v : Nat → ℝ) : vector n u - vector n v = vector n fun c => u c - v c := rfl

theorem sgdUpdate_vector {rate : ℝ} {m : SparseLRModel ℝ} {g : LRSparseGradient ℝ}
    {t : OptimizationMethod ℝ × SparseLRModel ℝ} (done : (OptimizationMethod.sgd rate).sgdUpdate m g = .ok t)
    (size : m.weights.length = n) :
    vector n (weightOf t.2.weights) = vector n (weightOf m.weights) + rate • vector n (direction g) := by
  ext c
  have known : c.val < m.weights.length := size.symm ▸ c.isLt
  have new := sgdUpdate_weight done c.val
  rw [List.getElem?_eq_getElem known] at new
  change weightOf t.2.weights c = weightOf m.weights c + rate * direction g c
  rw [weightOf, weightOf, List.getD_eq_getElem?_getD, List.getD_eq_getElem?_getD, new, List.getElem?_eq_getElem known]
  rfl

end Vectors

section Minibatches
variable {x : Setup I B ℝ} (plain : Plain x)
include plain

theorem Plain.labelled (i : I) (round : Nat) : Labelled x.config (x.getNext i round).dataset where
  modelBits := x.modelBits
  few := (x.getNext i round).few
  labels := (x.getNext i round).labels
  probabilities := plain.probabilities i round
  natural := (x.getNext i round).inside

variable {ds : SparseDataset ℝ} {weights : List ℝ} {g : LRSparseGradient ℝ}
  (computed : gradientAt x.config ds weights = .ok g)
include computed

theorem gradient_slope (d : Nat → ℝ) : (g.weights.map fun e => e.2 * d (cell e.1)).sum =
    ∑ c ∈ support ds, Logistic.descent (support ds) (samples ds) (weightOf weights) c * d c := by
  have entry : ∀ e : Int32 × ℝ, plainEntry x.config weights e = e.2 := by
    intro e
    rw [plainEntry, plain.epsilon]
    ring
  have sum := gradient_sum plain.unfiltered computed d
  simpa only [entry] using sum

theorem gradient_tangent {n : Nat} (inside : ∀ e ∈ g.weights, cell e.1 < n) (other : List ℝ) :
    lossAt ds weights - inner ℝ (vector n (direction g)) (vector n (weightOf other) - vector n (weightOf weights)) ≤
      lossAt ds other := by
  have slope := gradient_slope plain computed fun c => weightOf other c - weightOf weights c
  rw [vector_sub, inner_direction inside, slope]
  exact Logistic.total_ge _ _ _ _

theorem gradient_short {n : Nat} (inside : ∀ e ∈ g.weights, cell e.1 < n) (known : Labelled x.config ds) :
    ‖vector n (direction g)‖ ^ 2 ≤ ds.data.length * squares ds := by
  have each : ∀ c ∈ support ds, direction g c = Logistic.descent (support ds) (samples ds) (weightOf weights) c := by
    intro c member
    have slope := gradient_slope plain computed fun other => if other = c then 1 else 0
    rw [direction, slope]
    simp [member]
  have labels : ∀ s ∈ samples ds, 0 ≤ s.label ∧ s.label ≤ 1 := by
    intro s member
    obtain ⟨sample, there, rfl⟩ := List.mem_map.mp member
    exact (known.label there).2
  have slope := gradient_slope plain computed (direction g)
  rw [← real_inner_self_eq_norm_sq, inner_direction inside, slope]
  have squared : ∑ c ∈ support ds, Logistic.descent (support ds) (samples ds) (weightOf weights) c * direction g c =
      ∑ c ∈ support ds, Logistic.descent (support ds) (samples ds) (weightOf weights) c ^ 2 :=
    Finset.sum_congr rfl fun c member => by rw [each c member, sq]
  rw [squared]
  refine (Logistic.descent_sq_le _ labels _).trans_eq ?_
  rw [samples, List.length_map, List.length_zipIdx]
  rfl

theorem gradient_inside (i : I) (round : Nat) (same : ds = (x.getNext i round).dataset) :
    ∀ e ∈ g.weights, cell e.1 < 2 ^ x.config.modelBits + 1 := by
  intro e member
  subst same
  have listed := ((gradient_entries plain.unfiltered computed).2.1 e member).1
  exact Nat.lt_succ_of_lt ((plain.labelled i round).inside listed)

end Minibatches

section Runs
variable [DecidableEq I] {x : Setup I B ℝ} {first : Server B ℝ} {rate : ℝ} {a : Abstract I ℝ}

local instance runs_atLeastTwo : Nat.AtLeastTwo 2 := ⟨le_rfl⟩

noncomputable def modelAt (x : Setup I B ℝ) (first : Server B ℝ) (a : Abstract I ℝ) (t : Nat) :
    OptimizationMethod ℝ × SparseLRModel ℝ :=
  x.scheme.after (first.optMethod, first.lrModel) (a.applied.take t)

omit [DecidableEq I] in
theorem modelAt_succ {t : Nat} {i : I} {g : LRSparseGradient ℝ} (taken : a.applied[t]? = some (i, g)) :
    modelAt x first a (t + 1) = x.scheme.apply (modelAt x first a t) g := by
  obtain ⟨known, here⟩ := List.getElem?_eq_some_iff.mp taken
  rw [modelAt, List.take_succ_eq_append_getElem known, here, Asynchronous.Scheme.after_concat]
  rfl

omit [DecidableEq I] in
theorem update_gradient {i : I} {round : Nat} {weights : List ℝ} {u : LRSparseGradient ℝ}
    (made : x.scheme.update i round weights = some u) :
    ∃ g, gradientAt x.config (x.getNext i round).dataset weights = .ok g ∧
      u = { g with version := UInt64.ofNat (round + 1) } := by
  obtain ⟨g, found, rfl⟩ := Option.map_eq_some_iff.mp made
  cases computed : gradientAt x.config (x.getNext i round).dataset weights with
  | error fault => rw [computed] at found; cases found
  | ok g' =>
    rw [computed] at found
    cases found
    exact ⟨g, rfl, rfl⟩

omit [DecidableEq I] in
theorem apply_sgd {m m' : OptimizationMethod ℝ × SparseLRModel ℝ} {g : LRSparseGradient ℝ} (sgd : m.1 = .sgd rate)
    (done : (OptimizationMethod.sgd rate).sgdUpdate m.2 g = .ok m') : x.scheme.apply m g = m' := by
  change (m.1.sgdUpdate m.2 g).toOption.getD m = m'
  rw [sgd, done]
  rfl

variable (plain : Plain x) (method : first.optMethod = .sgd rate)
  (sized : OptimizationMethod.HasSize first.lrModel (2 ^ x.config.modelBits + 1))
  (consistent : Asynchronous.Consistent x.scheme (first.optMethod, first.lrModel) a)
include plain

omit [DecidableEq I] in
theorem update_inside {i : I} {round : Nat} {weights : List ℝ} {u : LRSparseGradient ℝ}
    (made : x.scheme.update i round weights = some u) : ∀ e ∈ u.weights, cell e.1 < 2 ^ x.config.modelBits + 1 := by
  obtain ⟨g, computed, same⟩ := update_gradient made
  rw [same]
  exact fun e member => gradient_inside plain computed i round rfl e member

include method sized consistent

theorem models_sgd (t : Nat) (known : t ≤ a.applied.length) :
    (modelAt x first a t).1 = .sgd rate ∧
      OptimizationMethod.HasSize (modelAt x first a t).2 (2 ^ x.config.modelBits + 1) := by
  induction t with
  | zero => exact ⟨method, sized⟩
  | succ t ih =>
    obtain ⟨sgd, sized'⟩ := ih (Nat.le_of_succ_le known)
    obtain ⟨⟨i, g⟩, taken⟩ : ∃ e, a.applied[t]? = some e := ⟨_, List.getElem?_eq_getElem (Nat.lt_of_succ_le known)⟩
    obtain ⟨e, _, _, _, made⟩ := consistent.taken taken
    obtain ⟨m', done, size⟩ := OptimizationMethod.sgdUpdate_gives (.sgd rate) sized' (update_inside plain made)
    rw [modelAt_succ taken, apply_sgd sgd done]
    exact ⟨by rw [AsyncUpdates.lr_sgdUpdate done], size⟩

theorem models_applied {t : Nat} {i : I} {g : LRSparseGradient ℝ} (taken : a.applied[t]? = some (i, g)) :
    (OptimizationMethod.sgd rate).sgdUpdate (modelAt x first a t).2 g = .ok (.sgd rate, (modelAt x first a (t + 1)).2) := by
  have known := (List.getElem?_eq_some_iff.mp taken).1
  obtain ⟨sgd, sized'⟩ := models_sgd plain method sized consistent t known.le
  obtain ⟨e, _, _, _, made⟩ := consistent.taken taken
  obtain ⟨m', done, _⟩ := OptimizationMethod.sgdUpdate_gives (.sgd rate) sized' (update_inside plain made)
  have next : modelAt x first a (t + 1) = m' := (modelAt_succ taken).trans (apply_sgd sgd done)
  have kept := (models_sgd plain method sized consistent (t + 1) known).1
  rw [next] at kept
  rw [next, done, ← kept]

theorem models_trajectory [Nonempty I] : ∃ made : Nat → Made I,
    Trajectory x rate a.applied.length made fun t => (modelAt x first a t).2 := by
  obtain ⟨someone⟩ := ‹Nonempty I›
  have each : ∀ t, ∃ e : Made I, t < a.applied.length → a.applied[t]? = some (e.worker, e.gradient) ∧
      (a.sent e.worker)[(Asynchronous.ofActor e.worker (a.applied.take t)).length]? =
        some ⟨e.gradient, e.round, e.readAt⟩ ∧ e.readAt ≤ t ∧
      x.scheme.update e.worker e.round (x.scheme.seen (first.optMethod, first.lrModel) a.applied e.readAt) =
        some e.gradient := by
    intro t
    by_cases known : t < a.applied.length
    · obtain ⟨⟨i, g⟩, taken⟩ : ∃ e, a.applied[t]? = some e := ⟨_, List.getElem?_eq_getElem known⟩
      obtain ⟨e, found, rfl, early, made⟩ := consistent.taken taken
      exact ⟨⟨i, e.round, e.readAt, e.update⟩, fun _ => ⟨taken, found, early, made⟩⟩
    · exact ⟨⟨someone, 0, 0, { weights := [] }⟩, fun less => absurd less known⟩
  choose made facts using each
  refine ⟨made, ?_, ?_, ?_, ?_⟩
  · exact fun t known => (facts t known).2.2.1
  · intro t known
    obtain ⟨_, _, early, updated⟩ := facts t known
    have sgd := (models_sgd plain method sized consistent (made t).readAt (Nat.le_trans early known.le)).1
    have seen : x.scheme.seen (first.optMethod, first.lrModel) a.applied (made t).readAt =
        (modelAt x first a (made t).readAt).2.weights := by
      change (modelAt x first a (made t).readAt).2.weights.map (modelAt x first a (made t).readAt).1.editWeight = _
      rw [sgd]
      exact List.map_id _
    rw [seen] at updated
    exact update_gradient updated
  · exact fun t known => models_applied plain method sized consistent (facts t known).1
  · intro t t' later known' same
    obtain ⟨taken, found, _⟩ := facts t (Nat.lt_trans later known')
    obtain ⟨_, found', _⟩ := facts t' known'
    rw [← same] at found'
    have grows := Asynchronous.ofActor_grows taken later
    obtain ⟨bound, here⟩ := List.getElem?_eq_some_iff.mp found
    obtain ⟨bound', here'⟩ := List.getElem?_eq_some_iff.mp found'
    have ordered := (List.pairwise_iff_getElem.mp (consistent.ordered (made t).worker) _ _ bound bound' grows).1
    rw [here, here'] at ordered
    exact ordered

end Runs

noncomputable def reported (m : SparseLRModel ℝ) (ds : SparseDataset ℝ) : Except Fault ℝ := (m.calcLoss realLoss ds).map (·.1)

def squaredDistance (m other : SparseLRModel ℝ) : ℝ :=
  ∑ c ∈ Finset.range m.weights.length, (weightOf m.weights c - weightOf other.weights c) ^ 2

theorem reported_real {config : Configuration ℝ} {ds : SparseDataset ℝ} (known : Labelled config ds) {m : SparseLRModel ℝ}
    (enough : 2 ^ config.modelBits ≤ m.weights.length) : reported m ds = .ok (lossAt ds m.weights) := by
  obtain ⟨accuracy, here⟩ := calcLoss_real known enough
  rw [reported, here]
  rfl

theorem realZeros : ScratchVectors.ZeroLaws ℝ where
  zero := decide_eq_true rfl
  add x x' y zero zero' := by
    rw [of_decide_eq_true zero, of_decide_eq_true zero']
    exact .inl rfl

theorem Trajectory.regret {x : Setup I B ℝ} (plain : Plain x) {rate : ℝ} (positive : 0 < rate) {updates : Nat}
    {made : Nat → Made I} {model : Nat → SparseLRModel ℝ} (trajectory : Trajectory x rate updates made model)
    (size : ∀ t ≤ updates, (model t).weights.length = 2 ^ x.config.modelBits + 1) {delay : Nat} {length : ℝ}
    (recent : ∀ t < updates, t ≤ (made t).readAt + delay)
    (short : ∀ t < updates, (minibatch x (made t)).data.length * squares (minibatch x (made t)) ≤ length)
    (other : SparseLRModel ℝ) :
    ∑ t ∈ Finset.range updates, lossAt (minibatch x (made t)) (model (made t).readAt).weights ≤
      ∑ t ∈ Finset.range updates, lossAt (minibatch x (made t)) other.weights +
        squaredDistance (model 0) other / (2 * rate) + rate * length * (delay + 1 / 2) * updates := by
  let n := 2 ^ x.config.modelBits + 1
  have steps : DelayedDescent.Steps rate (fun t => vector n (direction (made t).gradient)) updates
      fun t => vector n (weightOf (model t).weights) :=
    ⟨fun t known => sgdUpdate_vector (trajectory.applied t known) (size t known.le)⟩
  have distance : ‖vector n (weightOf (model 0).weights) - vector n (weightOf other.weights)‖ ^ 2 =
      squaredDistance (model 0) other := by
    rw [vector_sub, norm_vector, squaredDistance, size 0 (Nat.zero_le _)]
  rw [← distance]
  apply steps.regret positive trajectory.readFirst recent
  · intro t known
    obtain ⟨g, computed, same⟩ := trajectory.gradient t known
    rw [same]
    exact (gradient_short plain computed (gradient_inside plain computed _ _ rfl) (plain.labelled _ _)).trans (short t known)
  · intro t known
    obtain ⟨g, computed, same⟩ := trajectory.gradient t known
    rw [same]
    exact gradient_tangent plain computed (gradient_inside plain computed _ _ rfl) other.weights

section Regret
variable [DecidableEq I] [DecidableEq B] [Nonempty I]

/-- In every run of any number of workers with a server, the losses that the workers meet at the weights they train with
stay below those of any fixed weights, up to the distance of these and what the gradients, and their delays, add up to. -/
theorem training_regret (x : Setup I B ℝ) (plain : Plain x) (first : Server B ℝ)
    (sized : OptimizationMethod.HasSize first.lrModel (2 ^ x.config.modelBits + 1)) (rate : ℝ) (positive : 0 < rate)
    (method : first.optMethod = .sgd rate) (labels : List (Label I B)) (s : Training.State I B ℝ)
    (taken : follow x.system.step (x.start first) labels = some s) :
    ∃ updates made model, model 0 = first.lrModel ∧ Trajectory x rate updates made model ∧
      (∀ server, s.server = .ok server → server.lrModel = model updates) ∧
      ∀ (other : SparseLRModel ℝ) (delay : Nat) (length : ℝ), other.weights.length = 2 ^ x.config.modelBits + 1 →
        (∀ t < updates, t ≤ (made t).readAt + delay) →
        (∀ t < updates, (minibatch x (made t)).data.length * squares (minibatch x (made t)) ≤ length) →
        ∃ met best : Nat → ℝ,
          (∀ t < updates, reported (model (made t).readAt) (minibatch x (made t)) = .ok (met t) ∧
            reported other (minibatch x (made t)) = .ok (best t)) ∧
          ∑ t ∈ Finset.range updates, met t ≤ ∑ t ∈ Finset.range updates, best t +
            squaredDistance first.lrModel other / (2 * rate) + rate * length * (delay + 1 / 2) * updates := by
  obtain ⟨a, follows, related⟩ := training_follow realZeros sized taken
  have consistent := Asynchronous.consistent_follow (Asynchronous.consistent_start x.scheme _) follows
  obtain ⟨made, trajectory⟩ := models_trajectory plain method sized consistent
  refine ⟨a.applied.length, made, fun t => (modelAt x first a t).2, rfl, trajectory, ?_, ?_⟩
  · intro server serving
    rcases related with ⟨server', together⟩ | ⟨_, _, _, ended, _⟩
    · obtain rfl := Except.ok.inj (serving.symm.trans together.serving)
      have now : (server.optMethod, server.lrModel) = modelAt x first a a.applied.length := by
        rw [← together.holds.model, consistent.model]
        exact congrArg _ (List.take_length).symm
      exact congrArg Prod.snd now
    · rw [ended] at serving
      cases serving
  · intro other delay length enough recent short
    have size : ∀ t ≤ a.applied.length, (modelAt x first a t).2.weights.length = 2 ^ x.config.modelBits + 1 :=
      fun t known => (models_sgd plain method sized consistent t known).2.weights
    refine ⟨fun t => lossAt (minibatch x (made t)) (modelAt x first a (made t).readAt).2.weights,
      fun t => lossAt (minibatch x (made t)) other.weights, ?_, trajectory.regret plain positive size recent short other⟩
    intro t known
    have read := size (made t).readAt (Nat.le_trans (trajectory.readFirst t known) known.le)
    exact ⟨reported_real (plain.labelled _ _) (read ▸ Nat.le_succ _), reported_real (plain.labelled _ _) (enough ▸ Nat.le_succ _)⟩

end Regret

section Example

/-- Bytes, and numbers that no byte could hold. -/
abbrev Cell := UInt8 ⊕ ℝ

noncomputable local instance : DecidableEq Cell := Classical.decEq Cell

def number : Codec Cell ℝ 4 where
  put x := [.inr x, .inl 0, .inl 0, .inl 0]
  get cells := (cells.headD (.inr 0)).elim (fun _ => 0) id
  put_length _ := rfl
  get_put _ := rfl

def wire : Wire Cell ℝ where
  u32 := Exact.widen Wire.littleEndian.u32 Sum.inl (Sum.elim id fun _ => 0) fun _ => rfl
  u64 := Exact.widen Wire.littleEndian.u64 Sum.inl (Sum.elim id fun _ => 0) fun _ => rfl
  feature := number
  nul := .inl 0

theorem settings_bits : LogisticLoss.settings.modelBits < 31 := Nat.succ_pos 30

theorem oneSample_few : oneSample.data.length ≤ LogisticLoss.settings.minibatchSize := Nat.le_refl 1

theorem oneSample_labels : oneSample.labels.length = oneSample.data.length := rfl

theorem oneSample_indices : ∀ index ∈ indices oneSample, 0 ≤ index.toInt ∧ index.toInt < 2 ^ LogisticLoss.settings.modelBits :=
  List.forall_mem_singleton.mpr ⟨Int.le_refl 0, Int.zero_lt_one⟩

theorem oneSample_entries : ServerInterface.features oneSample ≠ [] := List.cons_ne_nil _ _

theorem oneSample_listed : (ServerInterface.features oneSample).length ≤ 262143 := Nat.succ_le_succ (Nat.zero_le _)

noncomputable def oneWorker : Setup Unit Cell ℝ where
  wire := wire
  config := settings
  modelBits := settings_bits
  testIters := 0
  getNext _ _ :=
    { dataset := oneSample
      few := oneSample_few
      labels := oneSample_labels
      inside := oneSample_indices
      someEntry := oneSample_entries
      listed := oneSample_listed }

theorem oneWorker_plain : Plain oneWorker :=
  ⟨rfl, rfl, fun _ _ => List.forall_mem_singleton.mpr ⟨zero_le_one, le_refl 1⟩⟩

noncomputable def server : Server Cell ℝ := .start 2 1 1 (.sgd 1) 0

noncomputable def oneRound : List (Training.Label Unit Cell) :=
  [.ask (), .serve (.requests ()) (.fresh wire), .push (), .serve (.updates ()) (.fresh wire)]

theorem training_regret_round : ∃ s updates made model, follow oneWorker.system.step (oneWorker.start server) oneRound = some s ∧
    model 0 = server.lrModel ∧ Trajectory oneWorker 1 updates made model ∧
    ∀ delay : Nat, (∀ t < updates, t ≤ (made t).readAt + delay) →
      ∃ met best : Nat → ℝ,
        (∀ t < updates, reported (model (made t).readAt) oneSample = .ok (met t) ∧
          reported server.lrModel oneSample = .ok (best t)) ∧
        ∑ t ∈ Finset.range updates, met t ≤ ∑ t ∈ Finset.range updates, best t +
          squaredDistance server.lrModel server.lrModel / (2 * 1) +
            1 * (1 * squares oneSample) * (delay + 1 / 2) * updates := by
  obtain ⟨g, computed⟩ : ∃ g, gradientAt oneWorker.config oneSample [0, 0] = .ok g :=
    gradientAt_ok (oneWorker_plain.labelled () 0) (Nat.le_succ 1)
  obtain ⟨s, taken⟩ := round_goes realZeros oneWorker server ⟨rfl, rfl⟩ () (.fresh wire) computed
  obtain ⟨updates, made, model, start, trajectory, _, regret⟩ :=
    training_regret oneWorker oneWorker_plain server ⟨rfl, rfl⟩ 1 one_pos rfl oneRound s taken
  refine ⟨s, updates, made, model, taken, start, trajectory, fun delay recent => ?_⟩
  exact regret server.lrModel delay (1 * squares oneSample) rfl recent fun t _ => (congrArg (· * _) Nat.cast_one).le

end Example
end TrainingLoss

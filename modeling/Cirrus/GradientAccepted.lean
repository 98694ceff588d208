import Cirrus.Exact
import Cirrus.MinibatchGradient
import Cirrus.ServerInterface

/-!
Which of the gradients that a worker computes the server accepts. A gradient
with no entries is one that the worker can compute and send, and that the
decoder's assertion stops.
-/
namespace GradientAccepted
open Gradients SparseLR ServerTask ServerInterface Stream Stream.Prog Decoder
variable {B F : Type}

theorem loadSerialized_refuses {w : Wire B F} {g : LRSparseGradient F} (small : g.weights.length < 2 ^ 31)
    (illegal : ¬ (0 < g.weights.length ∧ g.weights.length < 10000000)) (rest : List B) :
    LRSparseGradient.loadSerialized w (g.serialize w ++ rest) =
      .error (.assertion "num_weights > 0 && num_weights < 10000000") := by
  have count : (toInt g.weights.length).toInt = g.weights.length :=
    LRSparseGradient.toInt_toInt small
  rw [LRSparseGradient.serialize, List.append_assoc, List.append_assoc, LRSparseGradient.loadSerialized,
    bind_ok (w.int.load_put _ _), bind_ok (w.int.load_put _ _), check_neg]
  · rfl
  · rw [count, LRSparseGradient.maxWeights]
    omega

section Serving
variable [Zero F] [One F] [Add F] [Sub F] [Mul F] [Div F] [FloatOps F] [DecidableEq B]

/-- The client sends the gradient, and the server takes all of it, applies it and fails nowhere. -/
def Accepted (w : Wire B F) (worker : Worker B) (s : Server B F) (g : LRSparseGradient F) : Prop :=
  ∃ bytes method model, Talks (sendLrGradient w g) [] bytes () ∧
    s.optMethod.sgdUpdate s.lrModel g = .ok (method, model) ∧
    Talks (gradientF w worker s) bytes []
      { server :=
          { s with
            optMethod := method
            lrModel := model
            gradientUpdatesCount := s.gradientUpdatesCount + 1 } }

variable {w : Wire B F}

theorem processSendLrGradient_talks (worker : Worker B) {s : Server B F} {g : LRSparseGradient F}
    (some_weight : 0 < g.weights.length) (few : g.weights.length < 10000000) {method : OptimizationMethod F}
    {model : SparseLRModel F} (applied : s.optMethod.sgdUpdate s.lrModel g = .ok (method, model)) :
    Talks (gradientF w worker s) (lrMessage w g) []
      { server :=
          { s with
            optMethod := method
            lrModel := model
            gradientUpdatesCount := s.gradientUpdatesCount + 1 } } := by
  have length := g.serialize_length w
  rw [LRSparseGradient.getSerializedSize] at length
  have room : (g.serialize w).length ≤ threadBufferSize := by
    rw [length, threadBufferSize]
    omega
  apply gradientF_read worker s rfl
  rw [← g.serialize_length w]
  apply bodyRequest_talks (by omega) room
  · exact g.loadSerialized_serialize w some_weight few _
  · exact Talks.work (f := fun _ => returns _) applied (.pure _)

theorem accepted_of_count (worker : Worker B) {s : Server B F} {g : LRSparseGradient F} {n : Nat}
    (sized : OptimizationMethod.HasSize s.lrModel n) (inside : ∀ e ∈ g.weights, cell e.1 < n)
    (some_weight : 0 < g.weights.length) (few : g.weights.length < 10000000) :
    Accepted w worker s g := by
  obtain ⟨⟨method, model⟩, applied, _⟩ := s.optMethod.sgdUpdate_gives sized inside
  have asks := sendLrGradient_asks w g (by rw [LRSparseGradient.getSerializedSize]; omega)
  exact ⟨lrMessage w g, method, model, asks, applied, processSendLrGradient_talks worker some_weight few applied⟩

theorem not_accepted_of_count (worker : Worker B) {s : Server B F} {g : LRSparseGradient F}
    (illegal : ¬ (0 < g.weights.length ∧ g.weights.length < 10000000)) : ¬ Accepted w worker s g := by
  intro ⟨bytes, method, model, asks, applied, serves⟩
  have small : g.getSerializedSize < 2 ^ 32 := by
    apply Decidable.byContradiction
    intro large
    exact sendLrGradient_overflows w g (by omega) asks
  have sent : bytes = lrMessage w g :=
    (congrArg Progress.sent ((asks []).symm.trans (sendLrGradient_asks w g small [])))
  have length := g.serialize_length w
  rw [LRSparseGradient.getSerializedSize] at length small
  have size : (UInt32.ofNat g.getSerializedSize).toNat = (g.serialize w).length := by
    rw [g.serialize_length w]
    exact UInt32.toNat_ofNat_of_lt' small
  have served := congrArg Progress.result (serves [])
  rw [List.append_nil, sent, lrMessage, gradientF_run worker s rfl, processSendLrGradient, bodyRequest,
    run_read (w.u32.put_length _) (by decide)] at served
  dsimp only at served
  rw [w.u32.get_put, size, worker.sizes.1] at served
  split at served
  · cases served
  · rw [run_read_all (by omega)] at served
    dsimp only at served
    rw [overwrite, loadSerialized_refuses (by omega) illegal] at served
    cases served

end Serving

def Allocated (config : Configuration F) (m : SparseLRModel F) : Prop :=
  m.part3 = [] ∨ m.part3.length = 2 ^ config.modelBits

theorem start_length [Zero F] {config : Configuration F} {m : SparseLRModel F} {start : List F}
    (allocated : Allocated config m)
    (done : SparseLRModel.allocate m.part3 (SparseLRModel.sparseBlock config) = .ok start) :
    start.length = 2 ^ config.modelBits := by
  rcases allocated with fresh | used
  · rw [SparseLRModel.allocate, fresh, List.isEmpty_nil, if_pos rfl] at done
    obtain ⟨block, sized, same⟩ := Loops.ok_of_bind done
    cases same
    rw [List.length_replicate]
    exact (SparseLRModel.sparseBlock_ok sized).2
  · have some_cell : m.part3.isEmpty = false := by
      rw [List.isEmpty_eq_false_iff, ← List.length_pos_iff, used]
      exact Nat.two_pow_pos _
    rw [SparseLRModel.allocate, some_cell] at done
    cases done
    exact used

section Producing
variable [Zero F] [Add F] [Sub F] [Mul F] [OfNat F 2] [FloatOps F]

instance (config : Configuration F) (x : F) : Decidable (Passes config x) :=
  inferInstanceAs (Decidable (_ = true → _ = true))

def kept (config : Configuration F) (m : SparseLRModel F) (ds : SparseDataset F) : Finset Int32 :=
  (indices ds).toFinset.filter fun index => FloatOps.isZero (valueAt m ds index) = false ∧
    Passes config (finalGrad config m.weightsSparse (valueAt m ds index) index)

theorem length_of_emitted {config : Configuration F} {m : SparseLRModel F} {ds : SparseDataset F}
    {res : Row F} (emitted : Emitted config m.weightsSparse (valueAt m ds) (indices ds) res) :
    res.length = (kept config m ds).card := by
  have same : (res.map (·.1)).toFinset = kept config m ds := by
    ext index
    rw [List.mem_toFinset, List.mem_map, kept, Finset.mem_filter, List.mem_toFinset]
    constructor
    · intro ⟨e, member, here⟩
      obtain ⟨listed, nonzero, passes, equal⟩ := (emitted.mem e).mp member
      rw [equal] at passes
      subst here
      exact ⟨listed, nonzero, passes⟩
    · intro ⟨listed, nonzero, passes⟩
      exact ⟨(index, _), (emitted.mem _).mpr ⟨listed, nonzero, passes, rfl⟩, rfl⟩
  rw [← same, List.toFinset_card_of_nodup emitted.nodup, List.length_map]

variable [One F] [Div F] [DecidableEq B]

/-- A gradient that a worker computes is accepted exactly if some index, and fewer than 10000000 of
them, is kept by the filters. -/
theorem gradient_accepted_iff (w : Wire B F) (worker : Worker B) (s : Server B F)
    (zero : FloatOps.isZero (0 : F) = true) {m m' : SparseLRModel F} {ds : SparseDataset F}
    {config : Configuration F} {g : LRSparseGradient F} (allocated : Allocated config m)
    {n : Nat} (sized : OptimizationMethod.HasSize s.lrModel n) (large : 2 ^ config.modelBits ≤ n)
    (returned : m.minibatchGradSparse ds config = .ok (m', g)) (version : UInt64) :
    Accepted w worker s { g with version := version } ↔
      0 < (kept config m ds).card ∧ (kept config m ds).card < 10000000 := by
  obtain ⟨start, computed⟩ := minibatchGradSparse_ends zero returned
  have count := length_of_emitted computed.emitted
  have block := start_length allocated computed.allocated
  have inside : ∀ e ∈ g.weights, cell e.1 < n := by
    intro e member
    have listed := ((computed.emitted.mem e).mp member).1
    have bound := computed.inside e.1 listed
    omega
  constructor
  · intro accepted
    apply Decidable.byContradiction
    intro illegal
    rw [← count] at illegal
    exact not_accepted_of_count worker (g := { g with version := version }) illegal accepted
  · intro ⟨some_weight, few⟩
    rw [← count] at some_weight few
    exact accepted_of_count worker (g := { g with version := version }) sized inside some_weight few

end Producing

section Runs
open Exact

def oneSample : SparseDataset ℚ where
  data := [[(0, 1)]]
  labels := [1]

def oneWeight : SparseLRModel ℚ where
  weights := []
  weightsHist := []
  weightsSparse := [0]

def settings (useGradThreshold : Bool) : Configuration ℚ where
  learningRate := 1
  modelBits := 0
  minibatchSize := 1
  epsilon := 0
  useGradThreshold := useGradThreshold
  gradThreshold := 1

def server : Server ℚ ℚ := .start 2 1 1 (.sgd 1) 0

theorem server_sized : OptimizationMethod.HasSize server.lrModel 2 := ⟨rfl, rfl⟩

theorem filtered_gradient_refused :
    ¬ ∀ (worker : Worker ℚ) (s : Server ℚ ℚ) (m m' : SparseLRModel ℚ) (ds : SparseDataset ℚ)
      (config : Configuration ℚ) (g : LRSparseGradient ℚ) (n : Nat) (version : UInt64),
      Allocated config m → OptimizationMethod.HasSize s.lrModel n → 2 ^ config.modelBits ≤ n →
      m.minibatchGradSparse ds config = .ok (m', g) →
      Accepted wire worker s { g with version := version } := by
  intro always
  have returned : oneWeight.minibatchGradSparse oneSample (settings true) = .ok
      ({ oneWeight with uniqueIndices := [0], part2 := [1 / 2], part3 := [0] }, { weights := [] }) := by
    decide +kernel
  have accepted := always (.fresh wire) server oneWeight _ oneSample (settings true) _ 2 0
    (Or.inl rfl) server_sized (by decide) returned
  exact not_accepted_of_count _ (by decide) accepted

theorem single_gradient_accepted :
    Accepted wire (.fresh wire) server { weights := [(0, 1 / 2)], version := 7 } := by
  have returned : oneWeight.minibatchGradSparse oneSample (settings false) = .ok
      ({ oneWeight with uniqueIndices := [0], part2 := [1 / 2], part3 := [0] },
        { weights := [(0, 1 / 2)] }) := by
    decide +kernel
  apply (gradient_accepted_iff wire (.fresh wire) server rfl (Or.inl rfl) server_sized (by decide)
    returned 7).mpr
  decide +kernel

end Runs
end GradientAccepted

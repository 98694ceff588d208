import Cirrus.LRCopies

/-!
`SoftmaxModel` as an object that is constructed, loaded, updated and copied. The
constructor that takes rows of weights, which makes the copies, takes all of them
from the first row.
-/
namespace Softmax
open Gradients SparseLR Decoder Copying LR
variable {B F : Type}

namespace SoftmaxModel

def ofSize [Zero F] (classes d : UInt64) : Except Fault (SoftmaxModel F) := do
  pure { nclasses := classes, d := d, weights := ← resizeAll [] d classes }

def rowFrom [Zero F] (data : List (List F)) (nclasses : UInt64) (i : Nat) (v : List F) : Except Fault (List F) := do
  let v ← resize maxSize 0 v nclasses.toNat
  copyTo (← at' data i) v

def ofRows [Zero F] (data : List (List F)) (nclasses d : UInt64) : Except Fault (SoftmaxModel F) := do
  let weights ← resize maxRows [] [] d.toNat
  -- `int i = 0`, which no turn changes
  let weights ← weights.mapM (rowFrom data nclasses 0)
  pure { nclasses := nclasses, d := d, weights := weights }

def copy [Zero F] (m : SoftmaxModel F) : Except Fault (SoftmaxModel F) := ofRows m.weights m.nclasses m.d

/-- `rand` gives what `get_rand_between_0_1` returns for each weight of each row. -/
def randomize [Sub F] [Mul F] [OfScientific F] (rand : Nat → Nat → F) (m : SoftmaxModel F) : SoftmaxModel F :=
  { m with weights := m.weights.mapIdx fun i row => row.mapIdx fun j _ => 0.01 * (rand i j - 0.5) }

section Update
variable [Sub F] [Mul F]

/-- `weights[i][j] -= learning_rate * grad->weights[i][j]` -/
def updateEntry (learningRate : F) (gradient : List (List F)) (i : Nat) (weights : List (List F)) (j : Nat) :
    Except Fault (List (List F)) := do
  let g ← at' (← at' gradient i) j
  let row ← at' weights i
  let x ← at' row j
  setAt weights i (row.set j (x - learningRate * g))

def updateRow (learningRate : F) (gradient : List (List F)) (nclasses : UInt64) (weights : List (List F)) (i : Nat) :
    Except Fault (List (List F)) :=
  (List.range nclasses.toNat).foldlM (updateEntry learningRate gradient i) weights

def sgdUpdate (learningRate : F) (gradient : List (List F)) (m : SoftmaxModel F) : Except Fault (SoftmaxModel F) := do
  pure { m with weights := ← (List.range m.d.toNat).foldlM (updateRow learningRate gradient m.nclasses) m.weights }

end Update

section Loss
variable [Zero F] [One F] [Neg F] [Add F] [Sub F] [Mul F] [Div F] [OfScientific F] (ops : LossOps F)

/-- A column of `W`, which has as many rows as a sample has features. -/
def column (m : SoftmaxModel F) (cols k : Nat) : Except Fault (List F) :=
  (List.range cols).mapM fun d => do at' (← at' m.weights d) k

/-- The probabilities of the classes for each sample, whose sum is 1 over all samples. -/
def probabilities (m : SoftmaxModel F) (dataset : Dataset F) : Except Fault (List (List F)) := do
  let W ← (List.range m.nclasses.toNat).mapM (m.column dataset.cols)
  let scores := dataset.samples.map fun row => W.map (ops.dot row)
  let expScores := scores.map fun row => row.map ops.exp
  if expScores.any fun row => row.any fun v => ops.isNan v || ops.isInf v then
    throw (.exception "Invalid value after exp")
  let expScoresSum := ops.sum expScores.flatten
  pure (expScores.map fun row => row.map fun v => v / expScoresSum)

def addLoss (labels : List F) (s : F × Nat) (sample : List F × Nat) : Except Fault (F × Nat) := do
  let classI ← at' labels sample.2
  let prob ← match ops.toIndex classI with
    | some k => at' sample.1 k
    | none => throw .undefined
  let countWrong := if sample.1.any fun other => ops.less prob other then s.2 + 1 else s.2
  let logprob := if ops.less prob 1e-10 then 1e-10 else -ops.log prob
  if ops.isNan logprob || ops.isInf logprob then throw (.exception "Invalid logprob")
  pure (s.1 + logprob, countWrong)

def calcLoss (m : SoftmaxModel F) (dataset : Dataset F) : Except Fault (F × F) := do
  let probs ← m.probabilities ops dataset
  let (sum, countWrong) ← probs.zipIdx.foldlM (addLoss ops dataset.labels) (0, 0)
  let rows := ops.ofNat dataset.samples.length
  pure (sum / rows, 1 - 1 * ops.ofNat countWrong / rows)

end Loss

inductive Update (B F : Type)
  | randomize (rand : Nat → Nat → F)
  | loadSerialized (memory : List B)
  | sgdUpdate (learningRate : F) (gradient : List (List F))

def update [Zero F] [Sub F] [Mul F] [OfScientific F] (w : Wire B F) (m : SoftmaxModel F) :
    Update B F → Option (SoftmaxModel F)
  | .randomize rand => some (m.randomize rand)
  | .loadSerialized memory => ((loadInto w m memory).map Prod.fst).toOption
  | .sgdUpdate learningRate gradient => (m.sgdUpdate learningRate gradient).toOption

inductive Constructed [Zero F] (w : Wire B F) : SoftmaxModel F → Prop
  | ofSize {classes d : UInt64} {m : SoftmaxModel F} (built : ofSize classes d = .ok m) : Constructed w m
  | ofData {nclasses d : UInt64} {memory rest : List B} {m : SoftmaxModel F}
    (built : ofData w nclasses d memory = .ok (m, rest)) : Constructed w m
  | ofRows {data : List (List F)} {nclasses d : UInt64} {m : SoftmaxModel F}
    (built : ofRows data nclasses d = .ok m) : Constructed w m

structure Fit (weights : List (List F)) : Prop where
  few : weights.length ≤ maxRows
  short : ∀ row ∈ weights, row.length ≤ maxSize

/-- As many rows and columns as the members say, and the same row everywhere. -/
structure OneRow (m : SoftmaxModel F) : Prop where
  rows : m.weights.length = m.d.toNat
  columns : ∀ row ∈ m.weights, row.length = m.nclasses.toNat
  same : ∀ row ∈ m.weights, m.weights.head? = some row

section Copy
variable {w : Wire B F} {ops : LossOps F} {m m' : SoftmaxModel F}

theorem rowFrom_ok [Zero F] {data : List (List F)} {nclasses : UInt64} {v : List F} :
    rowFrom data nclasses 0 [] = .ok v ↔ nclasses.toNat ≤ maxSize ∧ ∃ row, data.head? = some row ∧
      row.length ≤ nclasses.toNat ∧ v = row ++ List.replicate (nclasses.toNat - row.length) 0 := by
  constructor
  · intro made
    obtain ⟨fresh, resized, made⟩ := Loops.ok_of_bind made
    obtain ⟨row, found, made⟩ := Loops.ok_of_bind made
    obtain ⟨small, rfl⟩ := resize_nil_ok.mp resized
    rw [copyTo_ok, List.length_replicate, List.drop_replicate] at made
    exact ⟨small, row, List.head?_eq_getElem? ▸ at'_ok.mp found, made⟩
  · rintro ⟨small, row, first, made⟩
    rw [rowFrom, Loops.bind_of_ok (resize_nil_ok.mpr ⟨small, rfl⟩),
      Loops.bind_of_ok (at'_ok.mpr (List.head?_eq_getElem? ▸ first)), copyTo_ok, List.length_replicate,
      List.drop_replicate]
    exact made

theorem ofRows_ok [Zero F] {data : List (List F)} {nclasses d : UInt64} :
    ofRows data nclasses d = .ok m ↔ d.toNat ≤ maxRows ∧ m.nclasses = nclasses ∧ m.d = d ∧
      m.weights.length = d.toNat ∧ ∀ row ∈ m.weights, rowFrom data nclasses 0 [] = .ok row := by
  constructor
  · intro built
    obtain ⟨empty, resized, built⟩ := Loops.ok_of_bind built
    obtain ⟨weights, rows, same⟩ := Loops.ok_of_bind built
    obtain ⟨few, rfl⟩ := resize_nil_ok.mp resized
    cases same
    exact ⟨few, rfl, rfl, Loops.mapM_replicate_ok.mp rows⟩
  · obtain ⟨nclasses, d, weights⟩ := m
    rintro ⟨few, rfl, rfl, rows⟩
    rw [ofRows, Loops.bind_of_ok (resize_nil_ok.mpr ⟨few, rfl⟩), Loops.bind_of_ok (Loops.mapM_replicate_ok.mpr rows)]
    rfl

/-- A model is its own copy only if all its rows are the first one. -/
theorem copy_ok_iff [Zero F] (fit : Fit m.weights) : m.copy = .ok m ↔ m.OneRow := by
  rw [copy, ofRows_ok]
  constructor
  · rintro ⟨_, _, _, rows, made⟩
    have columns : ∀ row ∈ m.weights, row.length = m.nclasses.toNat := by
      intro row member
      obtain ⟨_, first, _, short, rfl⟩ := rowFrom_ok.mp (made row member)
      rw [List.length_append, List.length_replicate]
      omega
    refine ⟨rows, columns, ?_⟩
    intro row member
    obtain ⟨_, first, there, _, rfl⟩ := rowFrom_ok.mp (made row member)
    rw [there, columns first (List.mem_of_head? there), Nat.sub_self, List.replicate_zero, List.append_nil]
  · intro one
    refine ⟨one.rows ▸ fit.few, rfl, rfl, one.rows, ?_⟩
    intro row member
    have width := one.columns row member
    refine rowFrom_ok.mpr ⟨width ▸ fit.short row member, row, one.same row member, Nat.le_of_eq width, ?_⟩
    rw [width, Nat.sub_self, List.replicate_zero, List.append_nil]

theorem Fit.set {weights : List (List F)} (fit : Fit weights) {row : List F} (short : row.length ≤ maxSize) (i : Nat) :
    Fit (weights.set i row) := by
  refine ⟨Nat.le_trans (Nat.le_of_eq List.length_set) fit.few, ?_⟩
  intro other member
  rcases List.mem_or_eq_of_mem_set member with old | rfl
  · exact fit.short other old
  · exact short

theorem resizeAll_fit [Zero F] {weights resized : List (List F)} {rows columns : UInt64}
    (done : resizeAll weights rows columns = .ok resized) : Fit resized := by
  obtain ⟨taller, made, done⟩ := Loops.ok_of_bind done
  obtain ⟨few, rfl⟩ := resize_ok.mp made
  have each := Loops.mapM_ends done
  constructor
  · rw [← each.length_eq, resize_length]
    exact few
  · intro row member
    obtain ⟨i, inside, rfl⟩ := List.mem_iff_getElem.mp member
    obtain ⟨short, same⟩ := resize_ok.mp (each.get (by rw [each.length_eq]; exact inside) inside)
    rw [List.get_eq_getElem] at same
    rw [same, resize_length]
    exact short

theorem loadInto_fit [Zero F] {own : SoftmaxModel F} {memory rest : List B} (done : loadInto w own memory = .ok (m, rest)) :
    Fit m.weights := by
  obtain ⟨dim, _, _, done⟩ := Decoder.ok_of_bind done
  obtain ⟨classes, _, _, done⟩ := Decoder.ok_of_bind done
  obtain ⟨sized, mid, resized, done⟩ := Decoder.ok_of_bind done
  obtain ⟨weights, _, rows, same⟩ := Decoder.ok_of_bind done
  cases same
  have start := resizeAll_fit (ok_of_lift resized)
  rw [Decoder.foldlM_apply] at rows
  refine Loops.foldlM_ends (P := fun _ s => Fit s.1) ?_ start rows
  rintro seen i _ ⟨weights, memory⟩ ⟨weights', memory'⟩ fit one
  obtain ⟨values, _, read, one⟩ := Decoder.ok_of_bind one
  obtain ⟨row, _, found, one⟩ := Decoder.ok_of_bind one
  obtain ⟨_, _, fits, one⟩ := Decoder.ok_of_bind one
  have length := (rounds_ok (P := fun _ => True) (fun _ _ _ _ _ => trivial) read).1
  have wide := ok_of_check fits
  have there := at'_ok.mp (ok_of_lift found)
  obtain ⟨_, rfl⟩ := setAt_ok.mp (ok_of_lift one)
  refine fit.set ?_ i
  rw [List.length_append, List.length_drop, length, Nat.add_sub_cancel' wide]
  exact fit.short row (List.mem_of_getElem? there)

theorem constructed_fit [Zero F] (constructed : Constructed w m) : Fit m.weights := by
  cases constructed with
  | ofSize built =>
    obtain ⟨weights, sized, same⟩ := Loops.ok_of_bind built
    cases same
    exact resizeAll_fit sized
  | ofData built =>
    obtain ⟨weights, _, _, built⟩ := Decoder.ok_of_bind built
    exact loadInto_fit built
  | ofRows built =>
    obtain ⟨few, _, _, rows, made⟩ := ofRows_ok.mp built
    refine ⟨rows ▸ few, ?_⟩
    intro row member
    obtain ⟨small, first, _, short, rfl⟩ := rowFrom_ok.mp (made row member)
    rw [List.length_append, List.length_replicate, Nat.add_sub_cancel' short]
    exact small

theorem sgdUpdate_fit [Sub F] [Mul F] {learningRate : F} {gradient : List (List F)} (fit : Fit m.weights)
    (done : m.sgdUpdate learningRate gradient = .ok m') : Fit m'.weights := by
  obtain ⟨weights, rows, same⟩ := Loops.ok_of_bind done
  cases same
  refine Loops.foldlM_ends (P := fun _ s => Fit s) ?_ fit rows
  intro _ i _ before after fit row
  refine Loops.foldlM_ends (P := fun _ s => Fit s) ?_ fit row
  intro _ j _ weights weights' fit one
  obtain ⟨gs, _, one⟩ := Loops.ok_of_bind one
  obtain ⟨g, _, one⟩ := Loops.ok_of_bind one
  obtain ⟨row, found, one⟩ := Loops.ok_of_bind one
  obtain ⟨x, _, one⟩ := Loops.ok_of_bind one
  obtain ⟨_, rfl⟩ := setAt_ok.mp one
  refine fit.set ?_ i
  rw [List.length_set]
  exact fit.short row (List.mem_of_getElem? (at'_ok.mp found))

theorem update_fit [Zero F] [Sub F] [Mul F] [OfScientific F] {u : Update B F} (fit : Fit m.weights)
    (updated : m.update w u = some m') : Fit m'.weights := by
  cases u with
  | randomize rand =>
    obtain rfl := Option.some.inj updated
    constructor
    · exact Nat.le_trans (Nat.le_of_eq List.length_mapIdx) fit.few
    · intro row member
      obtain ⟨i, inside, rfl⟩ := List.mem_mapIdx.mp member
      rw [List.length_mapIdx]
      exact fit.short _ (List.getElem_mem inside)
  | loadSerialized memory =>
    obtain ⟨_, loaded⟩ := ObjectClass.ok_of_map_toOption updated
    exact loadInto_fit loaded
  | sgdUpdate learningRate gradient => exact sgdUpdate_fit fit (ObjectClass.ok_of_toOption updated)

variable [Zero F] [One F] [Neg F] [Add F] [Sub F] [Mul F] [Div F] [OfScientific F]

def objectClass (w : Wire B F) (ops : LossOps F) : ObjectClass Fault (SoftmaxModel F) (Update B F)
    (UInt64 × UInt64 × List (List F))
    ((Dataset F → Except Fault (List (List F))) × (Dataset F → Except Fault (F × F))) where
  constructed := Constructed w
  update := update w
  copy := copy
  parameters m := (m.nclasses, m.d, m.weights)
  behaviour m := (m.probabilities ops, m.calcLoss ops)

theorem reached_fit (reached : (objectClass w ops).Reached m) : Fit m.weights :=
  reached.keeps (I := fun m => Fit m.weights) (fun _ constructed => constructed_fit constructed)
    fun _ _ _ fit updated => update_fit fit updated

theorem parameters_inj (same : (objectClass w ops).parameters m = (objectClass w ops).parameters m') : m = m' := by
  obtain ⟨nclasses, same⟩ := Prod.mk.inj same
  obtain ⟨d, weights⟩ := Prod.mk.inj same
  cases m
  cases m'
  congr

theorem determined : (objectClass w ops).Determined := fun _ _ same => congrArg _ (parameters_inj same)

theorem copy_faithful_iff (reached : (objectClass w ops).Reached m) :
    (objectClass w ops).Faithful m ↔ m.OneRow := by
  rw [← copy_ok_iff (reached_fit reached)]
  constructor
  · rintro ⟨c, made, same, _⟩
    obtain rfl := parameters_inj same
    exact made
  · intro made
    exact determined.faithful made rfl

end Copy
end SoftmaxModel
end Softmax

import Cirrus.Lib.Cells
import Cirrus.MFApply

/-!
What the server adds to the cells of its two models for a gradient, entry by
entry, in the order of the loops of `sgd_update`.
-/
namespace SparseLR
open Gradients
variable {F : Type}

def SparseLRModel.cells (F : Type) : Cells (SparseLRModel F) Nat F where
  load m i := m.weights[i]?
  store m i x := { m with weights := m.weights.set i x }
  load_store_self x := (Cells.ofList F).load_store_self x
  load_store_ne x := (Cells.ofList F).load_store_ne x
  store_store m i x y := congrArg (fun v => { m with weights := v }) ((Cells.ofList F).store_store m.weights i x y)
  store_comm := by
    intro m i j x y different
    exact congrArg (fun v => { m with weights := v }) ((Cells.ofList F).store_comm (m := m.weights) x y different)

theorem addAt_add [Add F] {v v' : List F} {i : Nat} {x : F} (done : addAt v i x = .ok v') :
    i < v.length ∧ v' = (Cells.ofList F).add v (i, x) := by
  obtain ⟨y, found, rfl⟩ := addAt_ok.mp done
  exact ⟨(List.getElem?_eq_some_iff.mp found).1,
    ((Cells.ofList F).add_of_load (e := (i, x)) found).symm⟩

theorem add_length [Add F] (v : List F) (e : Nat × F) : ((Cells.ofList F).add v e).length = v.length := by
  unfold Cells.add
  split
  · exact List.length_set
  · rfl

namespace OptimizationMethod
variable [One F] [Add F] [Sub F] [Mul F] [Div F] [FloatOps F]

def additions (hist : Nat → F) : OptimizationMethod F → List (Int32 × F) → List (Nat × F)
  | _, [] => []
  | .sgd learningRate, e :: rest => (cell e.1, learningRate * e.2) :: additions hist (.sgd learningRate) rest
  | .momentum learningRate momentumBeta momentumAvg, e :: rest =>
    let avg := average learningRate momentumBeta momentumAvg e.2
    (cell e.1, avg) :: additions hist (.momentum learningRate momentumBeta avg) rest
  | .nesterov learningRate momentumBeta momentumAvg, e :: rest =>
    let avg := average learningRate momentumBeta momentumAvg e.2
    (cell e.1, avg) :: additions hist (.nesterov learningRate momentumBeta avg) rest
  | .adaGrad learningRate adagradEpsilon, e :: rest =>
    let squares := hist (cell e.1) + e.2 * e.2
    (cell e.1, learningRate * e.2 / (adagradEpsilon + FloatOps.sqrt squares)) ::
      additions (Function.update hist (cell e.1) squares) (.adaGrad learningRate adagradEpsilon) rest

theorem applyWeight_adds {method method' : OptimizationMethod F} {m m' : SparseLRModel F} {n : Nat} {hist : Nat → F}
    (history : m.weightsHist = Loops.vec n hist) {e : Int32 × F}
    (done : applyWeight (method, m) e = .ok (method', m')) :
    cell e.1 < m.weights.length ∧ ∃ x hist', m'.weightsHist = Loops.vec n hist' ∧
      m'.weights = (Cells.ofList F).add m.weights (cell e.1, x) ∧
      ∀ rest, additions hist method (e :: rest) = (cell e.1, x) :: additions hist' method' rest := by
  cases method with
  | sgd learningRate =>
    obtain ⟨v, one, same⟩ := Loops.ok_of_bind done
    obtain ⟨inside, rfl⟩ := addAt_add one
    cases same
    exact ⟨inside, _, hist, history, rfl, fun _ => rfl⟩
  | momentum learningRate momentumBeta momentumAvg =>
    obtain ⟨v, one, same⟩ := Loops.ok_of_bind done
    obtain ⟨inside, rfl⟩ := addAt_add one
    cases same
    exact ⟨inside, _, hist, history, rfl, fun _ => rfl⟩
  | nesterov learningRate momentumBeta momentumAvg =>
    obtain ⟨v, one, same⟩ := Loops.ok_of_bind done
    obtain ⟨inside, rfl⟩ := addAt_add one
    cases same
    exact ⟨inside, _, hist, history, rfl, fun _ => rfl⟩
  | adaGrad learningRate adagradEpsilon =>
    obtain ⟨squared, first, rest⟩ := Loops.ok_of_bind done
    obtain ⟨root, second, rest⟩ := Loops.ok_of_bind rest
    obtain ⟨v, one, same⟩ := Loops.ok_of_bind rest
    obtain ⟨inside, rfl⟩ := addAt_add one
    cases same
    obtain ⟨y, found, rfl⟩ := addAt_ok.mp first
    obtain ⟨bound, _⟩ := List.getElem?_eq_some_iff.mp found
    rw [history, Loops.vec_length] at bound
    rw [history, Loops.vec_getElem? bound] at found
    obtain rfl := Option.some.inj found
    rw [history, Loops.vec_set] at second ⊢
    have value := at'_ok.mp second
    rw [Loops.vec_getElem? bound, Function.update_self] at value
    obtain rfl := Option.some.inj value
    exact ⟨inside, _, _, rfl, rfl, fun _ => rfl⟩

theorem sgdUpdate_adds {method : OptimizationMethod F} {m : SparseLRModel F} {n : Nat} {hist : Nat → F}
    (history : m.weightsHist = Loops.vec n hist) {entries : List (Int32 × F)}
    {t : OptimizationMethod F × SparseLRModel F} (done : entries.foldlM applyWeight (method, m) = .ok t) :
    (∀ e ∈ entries, cell e.1 < m.weights.length) ∧
      t.2.weights = (Cells.ofList F).addAll m.weights (additions hist method entries) := by
  induction entries generalizing method m hist with
  | nil =>
    cases done
    exact ⟨nofun, by cases method <;> rfl⟩
  | cons e rest ih =>
    rw [List.foldlM_cons] at done
    obtain ⟨⟨method', m'⟩, one, done⟩ := Loops.ok_of_bind done
    obtain ⟨inside, x, hist', history', weights, additions⟩ := applyWeight_adds history one
    obtain ⟨others, last⟩ := ih history' done
    rw [weights, add_length] at others
    refine ⟨List.forall_mem_cons.mpr ⟨inside, others⟩, ?_⟩
    rw [last, weights, additions]
    rfl

end OptimizationMethod
end SparseLR

namespace MF
open Gradients SparseLR
variable {F : Type}

inductive Parameter
  | userBias (i : Nat)
  | itemBias (i : Nat)
  | userWeight (i : Nat)
  | itemWeight (i : Nat)
  deriving DecidableEq

namespace MFModel

def load (m : MFModel F) : Parameter → Option F
  | .userBias i => m.userBias[i]?
  | .itemBias i => m.itemBias[i]?
  | .userWeight i => m.userWeights[i]?
  | .itemWeight i => m.itemWeights[i]?

def store (m : MFModel F) (p : Parameter) (x : F) : MFModel F :=
  match p with
  | .userBias i => { m with userBias := m.userBias.set i x }
  | .itemBias i => { m with itemBias := m.itemBias.set i x }
  | .userWeight i => { m with userWeights := m.userWeights.set i x }
  | .itemWeight i => { m with itemWeights := m.itemWeights.set i x }

def cells (F : Type) : Cells (MFModel F) Parameter F where
  load := load
  store := store
  load_store_self := by
    intro m p y x found
    have self := @(Cells.ofList F).load_store_self
    cases p <;> exact self x found
  load_store_ne := by
    intro m p q x different
    have other := @(Cells.ofList F).load_store_ne
    cases p <;> cases q <;> first | rfl | exact other x fun same => different (congrArg _ same)
  store_store := by
    intro m p x y
    cases p <;> simp [store, List.set_set]
  store_comm := by
    intro m p q x y different
    cases p <;> cases q <;> first | rfl | simp [store]
    all_goals exact List.set_comm _ _ fun same => different (congrArg _ same)

end MFModel

/-- What `sgd_update` does to a model, access by access. -/
inductive Access (F : Type)
  | assertFactors (size : Nat)
  | add (p : Parameter) (x : F)

namespace Access

def addition : Access F → Option (Parameter × F)
  | assertFactors _ => none
  | add p x => some (p, x)

def Fits (m : MFModel F) : Access F → Prop
  | assertFactors size => size = numFactors
  | add p _ => (m.load p).isSome

end Access

/-- The place of a weight, as the code computes it. -/
def weightIndex (nfactors : UInt64) (id : Int32) (i : Nat) : Nat :=
  (id.toInt64.toUInt64 * nfactors + UInt64.ofNat i).toNat

def vectorAccesses (weight : Nat → Parameter) (nfactors : UInt64) (e : Int32 × List F) : List (Access F) :=
  .assertFactors e.2.length :: e.2.zipIdx.map fun x => .add (weight (weightIndex nfactors e.1 x.2)) x.1

def accesses (nfactors : UInt64) (g : MFSparseGradient F) : List (Access F) :=
  (MFSparseGradient.pairs g.usersBiasGrad).map (fun e => .add (.userBias (cell e.1)) e.2) ++
    ((MFSparseGradient.pairs g.itemsBiasGrad).map (fun e => .add (.itemBias (cell e.1)) e.2) ++
    (g.usersWeightsGrad.flatMap (vectorAccesses .userWeight nfactors) ++
    g.itemsWeightsGrad.flatMap (vectorAccesses .itemWeight nfactors)))

namespace MFModel
variable [Add F]

/-- The biases are accessed by `[]` and the weights by `at`. -/
def outside : Parameter → Fault
  | .userBias _ | .itemBias _ => .undefined
  | .userWeight _ | .itemWeight _ => rangeError

def access (m : MFModel F) : Access F → Except Fault (MFModel F)
  | .assertFactors size => if size = numFactors then .ok m else .error (.assertion "v.second.size() == NUM_FACTORS")
  | .add p x =>
    match m.load p with
    | some y => .ok (m.store p (y + x))
    | none => .error (outside p)

theorem access_found {m : MFModel F} {p : Parameter} {y : F} (found : m.load p = some y) (x : F) :
    m.access (.add p x) = .ok (m.store p (y + x)) := by
  simp [access, found]

theorem access_missing {m : MFModel F} {p : Parameter} (missing : m.load p = none) (x : F) :
    m.access (.add p x) = .error (outside p) := by
  simp [access, missing]

theorem access_ok {m t : MFModel F} {a : Access F} :
    m.access a = .ok t ↔ a.Fits m ∧ t = (cells F).addAll m a.addition.toList := by
  cases a with
  | assertFactors size =>
    unfold access
    by_cases same : size = numFactors
    · simp [Access.Fits, Access.addition, same, Cells.addAll, eq_comm]
    · simp [Access.Fits, same]
  | add p x =>
    unfold access
    cases found : m.load p with
    | none => simp [Access.Fits, found]
    | some y =>
      have added : (cells F).add m (p, x) = m.store p (y + x) := (cells F).add_of_load found
      simp [Access.Fits, Access.addition, found, Cells.addAll, added, eq_comm]

theorem fits_addAll (m : MFModel F) (l : List (Parameter × F)) (a : Access F) :
    a.Fits ((cells F).addAll m l) ↔ a.Fits m := by
  cases a with
  | assertFactors size => rfl
  | add p x =>
    have same := (cells F).load_addAll_isSome m l p
    change (((cells F).load ((cells F).addAll m l) p).isSome = true) ↔ _
    rw [same]
    rfl

theorem accesses_ok {m t : MFModel F} {l : List (Access F)} :
    l.foldlM access m = .ok t ↔ (∀ a ∈ l, a.Fits m) ∧ t = (cells F).addAll m (l.filterMap Access.addition) := by
  induction l generalizing m with
  | nil =>
    constructor
    · rintro ⟨⟩
      exact ⟨nofun, rfl⟩
    · rintro ⟨_, rfl⟩
      rfl
  | cons a l ih =>
    have split : (a :: l).filterMap Access.addition = a.addition.toList ++ l.filterMap Access.addition := by
      cases added : a.addition <;> simp [added]
    rw [List.foldlM_cons, split, (cells F).addAll_append, List.forall_mem_cons]
    constructor
    · intro done
      obtain ⟨m', one, done⟩ := Loops.ok_of_bind done
      obtain ⟨here, rfl⟩ := access_ok.mp one
      obtain ⟨others, last⟩ := ih.mp done
      exact ⟨⟨here, fun a member => (fits_addAll _ _ _).mp (others a member)⟩, last⟩
    · rintro ⟨⟨here, others⟩, last⟩
      rw [Loops.bind_of_ok (access_ok.mpr ⟨here, rfl⟩)]
      exact ih.mpr ⟨fun a member => (fits_addAll _ _ _).mpr (others a member), last⟩

theorem addBiases_access (put : List F → MFModel F) (place : Nat → Parameter)
    (loads : ∀ v i, (put v).load (place i) = v[i]?) (stores : ∀ v i x, (put v).store (place i) x = put (v.set i x))
    (undefined : ∀ i, outside (place i) = .undefined) (v : List F) (gradient : List (Int32 × F)) :
    (gradient.map fun e => Access.add (place (cell e.1)) e.2).foldlM access (put v) =
      (addBiases v gradient).map put := by
  rw [List.foldlM_map]
  apply Loops.foldlM_focus
  intro v e
  cases found : v[cell e.1]? with
  | none =>
    have missing : addAt v (cell e.1) e.2 = .error .undefined := by
      rw [addAt, at', found]
      rfl
    rw [access_missing ((loads _ _).trans found), missing, undefined]
    rfl
  | some x =>
    have added : addAt v (cell e.1) e.2 = .ok (v.set (cell e.1) (x + e.2)) := addAt_ok.mpr ⟨x, found, rfl⟩
    rw [access_found ((loads _ _).trans found), added, stores]
    rfl

theorem addVector_access (put : List F → MFModel F) (place : Nat → Parameter)
    (loads : ∀ v i, (put v).load (place i) = v[i]?) (stores : ∀ v i x, (put v).store (place i) x = put (v.set i x))
    (checked : ∀ i, outside (place i) = rangeError) (nfactors : UInt64) (v : List F) (e : Int32 × List F) :
    (vectorAccesses place nfactors e).foldlM access (put v) = (addVector nfactors v e).map put := by
  unfold vectorAccesses addVector
  rw [List.foldlM_cons]
  by_cases size : e.2.length = numFactors
  · have passed : access (put v) (.assertFactors e.2.length) = .ok (put v) := if_pos size
    rw [Loops.bind_of_ok passed, if_neg (not_not_intro size), List.foldlM_map]
    apply Loops.foldlM_focus
    intro v x
    change _ = (addCheckedAt v (weightIndex nfactors e.1 x.2) x.1).map put
    cases found : v[weightIndex nfactors e.1 x.2]? with
    | none =>
      rw [access_missing ((loads _ _).trans found), checked, addCheckedAt, checkedAt, found]
      rfl
    | some y =>
      rw [access_found ((loads _ _).trans found), stores, addCheckedAt, checkedAt, found]
      rfl
  · have failed : access (put v) (.assertFactors e.2.length) = .error (.assertion "v.second.size() == NUM_FACTORS") :=
      if_neg size
    rw [failed, if_pos size]
    rfl

theorem addVectors_access (put : List F → MFModel F) (place : Nat → Parameter)
    (loads : ∀ v i, (put v).load (place i) = v[i]?) (stores : ∀ v i x, (put v).store (place i) x = put (v.set i x))
    (checked : ∀ i, outside (place i) = rangeError) (nfactors : UInt64) (v : List F) (gradient : List (Int32 × List F)) :
    (gradient.flatMap (vectorAccesses place nfactors)).foldlM access (put v) =
      (gradient.foldlM (addVector nfactors) v).map put := by
  rw [Loops.foldlM_flatMap]
  exact Loops.foldlM_focus put (fun v e => addVector_access put place loads stores checked nfactors v e) gradient v

theorem sgdUpdate_accesses (m : MFModel F) (g : MFSparseGradient F) :
    m.sgdUpdate g = (accesses m.nfactors g).foldlM access m := by
  unfold sgdUpdate accesses
  rw [List.foldlM_append, addBiases_access (fun v => { m with userBias := v }) .userBias
    (fun _ _ => rfl) (fun _ _ _ => rfl) (fun _ => rfl) m.userBias]
  cases addBiases m.userBias (MFSparseGradient.pairs g.usersBiasGrad) with
  | error fault => rfl
  | ok userBias =>
    change _ = List.foldlM _ { m with userBias := userBias } _
    rw [List.foldlM_append, addBiases_access (fun v => { m with userBias := userBias, itemBias := v }) .itemBias
       (fun _ _ => rfl) (fun _ _ _ => rfl) (fun _ => rfl) m.itemBias]
    cases addBiases m.itemBias (MFSparseGradient.pairs g.itemsBiasGrad) with
    | error fault => rfl
    | ok itemBias =>
      change _ = List.foldlM _ { m with userBias := userBias, itemBias := itemBias } _
      rw [List.foldlM_append,
        addVectors_access (fun v => { m with userBias := userBias, itemBias := itemBias, userWeights := v }) .userWeight
         (fun _ _ => rfl) (fun _ _ _ => rfl) (fun _ => rfl) m.nfactors m.userWeights]
      change (g.usersWeightsGrad.foldlM (addVector m.nfactors) m.userWeights >>= _) = _
      cases g.usersWeightsGrad.foldlM (addVector m.nfactors) m.userWeights with
      | error fault => rfl
      | ok userWeights =>
        change _ = List.foldlM _ { m with userBias := userBias, itemBias := itemBias, userWeights := userWeights } _
        rw [addVectors_access (fun v =>
            { m with userBias := userBias, itemBias := itemBias, userWeights := userWeights, itemWeights := v }) .itemWeight
          (fun _ _ => rfl) (fun _ _ _ => rfl) (fun _ => rfl) m.nfactors m.itemWeights]
        change (g.itemsWeightsGrad.foldlM (addVector m.nfactors) m.itemWeights >>= _) = _
        cases g.itemsWeightsGrad.foldlM (addVector m.nfactors) m.itemWeights with
        | error fault => rfl
        | ok itemWeights => rfl

end MFModel

section Entries

def biasEntries (m : IdMap F) : List (Nat × F) := (MFSparseGradient.pairs m).map fun e => (cell e.1, e.2)

def vectorEntries (l : List (Int32 × List F)) : List ((Nat × Nat) × F) :=
  l.flatMap fun e => e.2.zipIdx.map fun x => ((cell e.1, x.2), x.1)

def additions (nfactors : UInt64) (g : MFSparseGradient F) : List (Parameter × F) :=
  (accesses nfactors g).filterMap Access.addition

def userFactor (c : Nat × Nat) : Parameter := .userWeight (c.1 * numFactors + c.2)

def itemFactor (c : Nat × Nat) : Parameter := .itemWeight (c.1 * numFactors + c.2)

def parameterEntries (g : MFSparseGradient F) : List (Parameter × F) :=
  (biasEntries g.usersBiasGrad).map (fun e => (.userBias e.1, e.2)) ++
    ((biasEntries g.itemsBiasGrad).map (fun e => (.itemBias e.1, e.2)) ++
    ((vectorEntries g.usersWeightsGrad).map (fun e => (userFactor e.1, e.2)) ++
    (vectorEntries g.itemsWeightsGrad).map fun e => (itemFactor e.1, e.2)))

theorem vectorAccesses_additions (place : Nat → Parameter) {nfactors : UInt64}
    (known : nfactors = UInt64.ofNat numFactors) {n : Nat} (size : n * numFactors ≤ MFModel.maxSize)
    {l : List (Int32 × List F)} (inside : ∀ e ∈ l, cell e.1 < n) (factors : ∀ e ∈ l, e.2.length = numFactors) :
    (l.flatMap (vectorAccesses place nfactors)).filterMap Access.addition =
      (vectorEntries l).map fun e => (place (e.1.1 * numFactors + e.1.2), e.2) := by
  rw [vectorEntries, List.filterMap_flatMap, List.map_flatMap]
  apply List.flatMap_congr
  intro e member
  have one : (vectorAccesses place nfactors e).filterMap Access.addition =
      e.2.zipIdx.map fun x => (place (weightIndex nfactors e.1 x.2), x.1) := by
    rw [vectorAccesses, List.filterMap_cons_none rfl, List.filterMap_map]
    exact congrFun (List.filterMap_eq_map (f := fun x : F × Nat => (place (weightIndex nfactors e.1 x.2), x.1))) _
  rw [one, List.map_map]
  apply List.map_congr_left
  intro x found
  have below := List.snd_lt_of_mem_zipIdx found
  rw [Nat.add_zero, factors e member] at below
  have place := MFModel.weight_cell known size (inside e member) below
  simp only [weightIndex, Function.comp_apply]
  rw [place, cell]

theorem additions_eq {nfactors : UInt64} (known : nfactors = UInt64.ofNat numFactors) {users items : Nat}
    (usersSize : users * numFactors ≤ MFModel.maxSize) (itemsSize : items * numFactors ≤ MFModel.maxSize)
    {g : MFSparseGradient F} (usersInside : ∀ e ∈ g.usersWeightsGrad, cell e.1 < users)
    (itemsInside : ∀ e ∈ g.itemsWeightsGrad, cell e.1 < items)
    (factors : ∀ e ∈ g.usersWeightsGrad ++ g.itemsWeightsGrad, e.2.length = numFactors) :
    additions nfactors g = parameterEntries g := by
  have biases : ∀ (place : Nat → Parameter) (m : IdMap F),
      ((MFSparseGradient.pairs m).map fun e => Access.add (place (cell e.1)) e.2).filterMap Access.addition =
        (biasEntries m).map fun e => (place e.1, e.2) := by
    intro place m
    rw [biasEntries, List.filterMap_map, List.map_map]
    exact congrFun (List.filterMap_eq_map (f := fun e : Int32 × F => (place (cell e.1), e.2))) _
  rw [List.forall_mem_append] at factors
  rw [additions, accesses, List.filterMap_append, List.filterMap_append, List.filterMap_append, biases, biases,
    vectorAccesses_additions _ known usersSize usersInside factors.1,
    vectorAccesses_additions _ known itemsSize itemsInside factors.2]
  rfl

end Entries
end MF

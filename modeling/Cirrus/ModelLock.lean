import Cirrus.GradientCells

/-!
The part of a gradient request that runs under `model_lock`. The lock is taken
and released by hand: an exception in between leaves it taken, and leaves the
model as the update had it by then.
-/
namespace ModelLock
open Gradients SparseLR MF Loops
variable {B F M : Type}

structure UnderLock (M : Type) where
  model : M
  fault : Option Fault
  modelLock : Bool

/-- `lock`, the rounds of the update, `unlock`. -/
def underLock {α : Type} (round : M → α → Except Fault M) (m : M) (l : List α) : UnderLock M where
  model := (keeping round m l).1
  fault := (keeping round m l).2
  modelLock := (keeping round m l).2.isSome

def lrUpdate [One F] [Add F] [Sub F] [Mul F] [Div F] [FloatOps F] (method : OptimizationMethod F)
    (m : SparseLRModel F) (g : LRSparseGradient F) : UnderLock (OptimizationMethod F × SparseLRModel F) :=
  underLock OptimizationMethod.applyWeight (method, m) g.weights

def mfUpdate [Add F] (m : MFModel F) (g : MFSparseGradient F) : UnderLock (MFModel F) :=
  underLock MFModel.access m (accesses m.nfactors g)

/-- The request has done everything, or it has failed and done nothing; no access was outside of a vector. -/
structure AllOrNothing (applied : M → Prop) (before : M) (after : UnderLock M) : Prop where
  inside : after.fault ≠ some .undefined
  released : after.modelLock = false
  whole : (after.fault = none ∧ applied after.model) ∨ (after.fault ≠ none ∧ after.model = before)

def LrApplied [Zero F] [One F] [Add F] [Sub F] [Mul F] [Div F] [FloatOps F] (method : OptimizationMethod F)
    (m : SparseLRModel F) (g : LRSparseGradient F) (after : OptimizationMethod F × SparseLRModel F) : Prop :=
  ∀ i, after.2.weights[i]? = m.weights[i]?.map fun x =>
    sumFor x i (OptimizationMethod.additions (m.weightsHist.getD · 0) method g.weights)

structure MfApplied [Add F] (m : MFModel F) (g : MFSparseGradient F) (after : MFModel F) : Prop where
  userBias : ∀ u, after.userBias[u]? = m.userBias[u]?.map fun x => sumFor x u (biasEntries g.usersBiasGrad)
  itemBias : ∀ i, after.itemBias[i]? = m.itemBias[i]?.map fun x => sumFor x i (biasEntries g.itemsBiasGrad)
  userWeights : ∀ u k, k < numFactors → after.userWeights[u * numFactors + k]? =
    m.userWeights[u * numFactors + k]?.map fun x => sumFor x (u, k) (vectorEntries g.usersWeightsGrad)
  itemWeights : ∀ i k, k < numFactors → after.itemWeights[i * numFactors + k]? =
    m.itemWeights[i * numFactors + k]?.map fun x => sumFor x (i, k) (vectorEntries g.itemsWeightsGrad)

/-- Every index is one of the model, as `size_t`: a negative one is larger than any. -/
structure MfInModel (m : MFModel F) (g : MFSparseGradient F) : Prop where
  userBias : ∀ e ∈ MFSparseGradient.pairs g.usersBiasGrad, cell e.1 < m.nusers.toNat
  itemBias : ∀ e ∈ MFSparseGradient.pairs g.itemsBiasGrad, cell e.1 < m.nitems.toNat
  userWeights : ∀ e ∈ g.usersWeightsGrad, cell e.1 < m.nusers.toNat
  itemWeights : ∀ e ∈ g.itemsWeightsGrad, cell e.1 < m.nitems.toNat

theorem allOrNothing_iff {α : Type} {round : M → α → Except Fault M} {m : M} {l : List α} {applied : M → Prop} :
    AllOrNothing applied m (underLock round m l) ↔ ∃ t, l.foldlM round m = .ok t ∧ applied t := by
  constructor
  · rintro ⟨_, released, whole⟩
    have ended : (keeping round m l).2 = none := by simpa [underLock] using released
    rcases whole with ⟨_, applied⟩ | ⟨failed, _⟩
    · exact ⟨_, keeping_ok.mp (Prod.ext rfl ended), applied⟩
    · exact (failed ended).elim
  · rintro ⟨t, done, applied⟩
    have stop := keeping_ok.mpr done
    constructor
    · simp [underLock, stop]
    · simp [underLock, stop]
    · simp [underLock, stop, applied]

section LogisticRegression
variable [Zero F] [One F] [Add F] [Sub F] [Mul F] [Div F] [FloatOps F]

theorem lr_applied {method : OptimizationMethod F} {m : SparseLRModel F} {n : Nat} (sized : OptimizationMethod.HasSize m n)
    {g : LRSparseGradient F} {t : OptimizationMethod F × SparseLRModel F} (done : method.sgdUpdate m g = .ok t) :
    (∀ e ∈ g.weights, cell e.1 < n) ∧ LrApplied method m g t := by
  have history : m.weightsHist = vec n (m.weightsHist.getD · 0) := by
    apply eq_vec sized.history
    intro k bound
    rw [← sized.history] at bound
    rw [List.getD_eq_getElem?_getD, List.getElem?_eq_getElem bound, Option.getD_some]
  obtain ⟨inside, weights⟩ := OptimizationMethod.sgdUpdate_adds history done
  rw [sized.weights] at inside
  refine ⟨inside, ?_⟩
  intro i
  rw [weights]
  exact (Cells.ofList F).load_addAll m.weights _ i

theorem lr_all_or_nothing_iff {method : OptimizationMethod F} {m : SparseLRModel F} {n : Nat}
    (sized : OptimizationMethod.HasSize m n) (g : LRSparseGradient F) :
    AllOrNothing (LrApplied method m g) (method, m) (lrUpdate method m g) ↔ ∀ e ∈ g.weights, cell e.1 < n := by
  unfold lrUpdate
  rw [allOrNothing_iff]
  constructor
  · rintro ⟨t, done, _⟩
    exact (lr_applied sized done).1
  · intro inside
    obtain ⟨t, done, _⟩ := OptimizationMethod.sgdUpdate_gives method sized inside
    exact ⟨t, done, (lr_applied sized done).2⟩

end LogisticRegression

section MatrixFactorization
variable {m : MFModel F} {g : MFSparseGradient F}

theorem biasAccesses_fit {place : Nat → Parameter} {v : List F} (loads : ∀ i, m.load (place i) = v[i]?) (l : IdMap F) :
    (∀ a ∈ (MFSparseGradient.pairs l).map fun e => Access.add (place (cell e.1)) e.2, a.Fits m) ↔
      ∀ e ∈ MFSparseGradient.pairs l, cell e.1 < v.length := by
  rw [List.forall_mem_map]
  apply forall₂_congr
  intro e _
  simp [Access.Fits, loads]

theorem weightIndex_outside {nfactors : UInt64} (known : nfactors = UInt64.ofNat numFactors) {n : Nat} {id : Int32}
    (size : n * numFactors ≤ MFModel.maxSize) (outside : n ≤ cell id) : n * numFactors ≤ weightIndex nfactors id 0 := by
  have value : weightIndex nfactors id 0 = cell id * 10 % 2 ^ 64 := by
    subst known
    rw [weightIndex, UInt64.toNat_add, UInt64.toNat_mul]
    change (cell id * 10 % 2 ^ 64 + 0) % 2 ^ 64 = _
    omega
  have bound : cell id < 2 ^ 64 := UInt64.toNat_lt _
  rw [value]
  rw [MFModel.maxSize, numFactors] at size
  rw [numFactors]
  rcases Int.lt_or_le id.toInt 0 with negative | natural
  · have large := cell_of_negative_large negative
    rw [show cell id * 10 = cell id * 10 - 9 * 2 ^ 64 + 9 * 2 ^ 64 by omega, Nat.add_mul_mod_self_right,
      Nat.mod_eq_of_lt (by omega)]
    omega
  · have natural := cell_of_natural natural
    have := Int32.toInt_lt id
    omega

theorem vectorAccesses_fit {place : Nat → Parameter} {v : List F} (loads : ∀ i, m.load (place i) = v[i]?)
    {nfactors : UInt64} (known : nfactors = UInt64.ofNat numFactors) {n : Nat} (length : v.length = n * numFactors)
    (size : n * numFactors ≤ MFModel.maxSize) {l : List (Int32 × List F)} (factors : ∀ e ∈ l, e.2.length = numFactors) :
    (∀ a ∈ l.flatMap (vectorAccesses place nfactors), a.Fits m) ↔ ∀ e ∈ l, cell e.1 < n := by
  rw [List.forall_mem_flatMap]
  apply forall₂_congr
  intro e member
  have count := factors e member
  rw [vectorAccesses, List.forall_mem_cons, List.forall_mem_map]
  simp only [Access.Fits, count, true_and, loads, isSome_getElem?, length]
  constructor
  · intro fits
    by_contra outside
    obtain ⟨x, rest, vector⟩ := List.exists_cons_of_length_pos (l := e.2) (by rw [count]; decide)
    have first := fits (x, 0) (by simp [vector])
    have past := weightIndex_outside known size (not_lt.mp outside)
    exact Nat.not_lt.mpr past first
  · intro inside x found
    have below := List.snd_lt_of_mem_zipIdx found
    rw [Nat.add_zero, count] at below
    rw [weightIndex, MFModel.weight_cell known size inside below]
    exact cell_bound inside below

theorem accesses_fit (formed : m.WellFormed) (factors : ∀ e ∈ g.usersWeightsGrad ++ g.itemsWeightsGrad, e.2.length = numFactors) :
    (∀ a ∈ accesses m.nfactors g, a.Fits m) ↔ MfInModel m g := by
  rw [List.forall_mem_append] at factors
  rw [accesses, List.forall_mem_append, List.forall_mem_append, List.forall_mem_append,
    biasAccesses_fit (fun _ => rfl), biasAccesses_fit (fun _ => rfl),
    vectorAccesses_fit (fun _ => rfl) formed.nfactors formed.userWeights formed.users factors.1,
    vectorAccesses_fit (fun _ => rfl) formed.nfactors formed.itemWeights formed.items factors.2,
    formed.userBias, formed.itemBias]
  constructor
  · rintro ⟨userBias, itemBias, userWeights, itemWeights⟩
    exact ⟨userBias, itemBias, userWeights, itemWeights⟩
  · rintro ⟨userBias, itemBias, userWeights, itemWeights⟩
    exact ⟨userBias, itemBias, userWeights, itemWeights⟩

section Sums
variable [Add F]

theorem sumFor_elsewhere {K : Type} (place : K → Parameter) {p : Parameter} (other : ∀ k, place k ≠ p) (x : F)
    (l : List (K × F)) : sumFor x p (l.map fun e => (place e.1, e.2)) = x := by
  apply sumFor_of_absent
  rw [List.forall_mem_map]
  exact fun e _ => other e.1

theorem sumFor_parameterEntries (g : MFSparseGradient F) (x : F) (p : Parameter) :
    sumFor x p (parameterEntries g) =
      sumFor (sumFor (sumFor (sumFor x p ((biasEntries g.usersBiasGrad).map fun e => (.userBias e.1, e.2)))
        p ((biasEntries g.itemsBiasGrad).map fun e => (.itemBias e.1, e.2)))
        p ((vectorEntries g.usersWeightsGrad).map fun e => (userFactor e.1, e.2)))
        p ((vectorEntries g.itemsWeightsGrad).map fun e => (itemFactor e.1, e.2)) := by
  rw [parameterEntries, sumFor_append, sumFor_append, sumFor_append]

theorem sumFor_vectorEntries (factor : Nat × Nat → Parameter)
    (injective : ∀ c d, factor c = factor d → c.1 * numFactors + c.2 = d.1 * numFactors + d.2)
    {l : List (Int32 × List F)} (factors : ∀ e ∈ l, e.2.length = numFactors) (x : F) {u k : Nat} (below : k < numFactors) :
    sumFor x (factor (u, k)) ((vectorEntries l).map fun e => (factor e.1, e.2)) =
      sumFor x (u, k) (vectorEntries l) := by
  apply sumFor_map x factor
  unfold vectorEntries
  rw [List.forall_mem_flatMap]
  intro e member
  rw [List.forall_mem_map]
  intro y found same
  have small := List.snd_lt_of_mem_zipIdx found
  rw [Nat.add_zero, factors e member] at small
  have place := injective _ _ same
  rw [numFactors] at place small below
  dsimp only at place ⊢
  rw [Prod.mk.injEq]
  omega

theorem mf_applied {m : MFModel F} {g : MFSparseGradient F}
    (factors : ∀ e ∈ g.usersWeightsGrad ++ g.itemsWeightsGrad, e.2.length = numFactors) :
    MfApplied m g ((MFModel.cells F).addAll m (parameterEntries g)) := by
  have loads : ∀ p, ((MFModel.cells F).addAll m (parameterEntries g)).load p =
      (m.load p).map fun x => sumFor x p (parameterEntries g) :=
    (MFModel.cells F).load_addAll m (parameterEntries g)
  rw [List.forall_mem_append] at factors
  constructor
  · intro u
    refine (loads (.userBias u)).trans ?_
    congr 1
    funext x
    rw [sumFor_parameterEntries, sumFor_map x Parameter.userBias fun _ _ same => Parameter.userBias.inj same,
      sumFor_elsewhere .itemBias (by simp), sumFor_elsewhere userFactor (by simp [userFactor]),
      sumFor_elsewhere itemFactor (by simp [itemFactor])]
  · intro i
    refine (loads (.itemBias i)).trans ?_
    congr 1
    funext x
    rw [sumFor_parameterEntries, sumFor_elsewhere .userBias (by simp),
      sumFor_map x Parameter.itemBias fun _ _ same => Parameter.itemBias.inj same,
      sumFor_elsewhere userFactor (by simp [userFactor]), sumFor_elsewhere itemFactor (by simp [itemFactor])]
  · intro u k below
    refine (loads (userFactor (u, k))).trans ?_
    congr 1
    funext x
    rw [sumFor_parameterEntries, sumFor_elsewhere .userBias (by simp [userFactor]),
      sumFor_elsewhere .itemBias (by simp [userFactor]),
      sumFor_vectorEntries userFactor (fun _ _ => Parameter.userWeight.inj) factors.1 x below,
      sumFor_elsewhere itemFactor (by simp [userFactor, itemFactor])]
  · intro i k below
    refine (loads (itemFactor (i, k))).trans ?_
    congr 1
    funext x
    rw [sumFor_parameterEntries, sumFor_elsewhere .userBias (by simp [itemFactor]),
      sumFor_elsewhere .itemBias (by simp [itemFactor]), sumFor_elsewhere userFactor (by simp [userFactor, itemFactor]),
      sumFor_vectorEntries itemFactor (fun _ _ => Parameter.itemWeight.inj) factors.2 x below]

theorem mf_all_or_nothing_iff {m : MFModel F} (formed : m.WellFormed) {g : MFSparseGradient F}
    (factors : ∀ e ∈ g.usersWeightsGrad ++ g.itemsWeightsGrad, e.2.length = numFactors) :
    AllOrNothing (MfApplied m g) m (mfUpdate m g) ↔ MfInModel m g := by
  unfold mfUpdate
  rw [allOrNothing_iff, ← accesses_fit formed factors]
  constructor
  · rintro ⟨t, done, _⟩
    exact (MFModel.accesses_ok.mp done).1
  · intro fits
    have done := MFModel.accesses_ok.mpr ⟨fits, rfl⟩
    have inModel := (accesses_fit formed factors).mp fits
    have same := additions_eq formed.nfactors formed.users formed.items inModel.userWeights inModel.itemWeights factors
    rw [additions] at same
    rw [same] at done
    exact ⟨_, done, mf_applied factors⟩

end Sums
end MatrixFactorization

theorem mfUpdate_done [Add F] {m t : MFModel F} {g : MFSparseGradient F} :
    mfUpdate m g = ⟨t, none, false⟩ ↔ m.sgdUpdate g = .ok t := by
  rw [MFModel.sgdUpdate_accesses, ← keeping_ok]
  constructor
  · intro done
    rw [mfUpdate, underLock, UnderLock.mk.injEq] at done
    exact Prod.ext done.1 done.2.1
  · intro done
    simp [mfUpdate, underLock, done]

theorem mfUpdate_stopped [Add F] (m : MFModel F) (g : MFSparseGradient F) :
    ∃ done rest, accesses m.nfactors g = done ++ rest ∧
      (mfUpdate m g).model = (MFModel.cells F).addAll m (done.filterMap Access.addition) := by
  obtain ⟨done, rest, split, before, _⟩ := keeping_split MFModel.access (accesses m.nfactors g) m
  exact ⟨done, rest, split, (MFModel.accesses_ok.mp before).2⟩

/-- A decoded gradient is applied as a whole, or has failed and done nothing, just
where all its indices are in the model: an index that is not leaves the entries before
it applied, with the lock taken or after an access outside of a vector. -/
theorem gradient_all_or_nothing_iff [Zero F] [One F] [Add F] [Sub F] [Mul F] [Div F] [FloatOps F] (w : Wire B F) :
    (∀ (method : OptimizationMethod F) (m : SparseLRModel F) (n : Nat), OptimizationMethod.HasSize m n →
      ∀ body rest g, LRSparseGradient.loadSerialized w body = .ok (g, rest) →
        (AllOrNothing (LrApplied method m g) (method, m) (lrUpdate method m g) ↔ ∀ e ∈ g.weights, cell e.1 < n)) ∧
    (∀ m : MFModel F, m.WellFormed → ∀ body rest g, MFSparseGradient.loadSerialized w {} body = .ok (g, rest) →
      (AllOrNothing (MfApplied m g) m (mfUpdate m g) ↔ MfInModel m g)) := by
  constructor
  · intro method m n sized body rest g _
    exact lr_all_or_nothing_iff sized g
  · intro m formed body rest g decoded
    exact mf_all_or_nothing_iff formed (MFSparseGradient.loadSerialized_factors decoded)

def oneByOne : MFModel UInt32 where
  nusers := 1
  nitems := 1
  nfactors := UInt64.ofNat numFactors
  userWeights := List.replicate numFactors 0
  itemWeights := List.replicate numFactors 0
  userBias := [0]
  itemBias := [0]
  globalBias := 0

def oneRating (item : Int32) : MFSparseGradient UInt32 where
  usersBiasGrad := AList.singleton 0 1
  itemsBiasGrad := AList.singleton item 1
  usersWeightsGrad := [(0, List.replicate numFactors 1)]
  itemsWeightsGrad := [(item, List.replicate numFactors 1)]

theorem oneRating_decoded (item : Int32) :
    MFSparseGradient.loadSerialized Wire.littleEndian {} (MFSparseGradient.layout Wire.littleEndian (oneRating item)) =
      .ok (oneRating item, []) := by
  have shaped : MFSparseGradient.Shaped (oneRating item) := by
    constructor
    · rfl
    · rfl
    · simp [oneRating]
  have decoded := MFSparseGradient.loadSerialized_layout Wire.littleEndian shaped (by simp [oneRating]) (by simp [oneRating])
  have all := decoded []
  rw [List.append_nil] at all
  exact all

def twoEntries : LRSparseGradient UInt32 := { weights := [(1, 3), (0, 2)] }

def twoWeights : SparseLRModel UInt32 := { weights := [5, 7], weightsHist := [0, 0] }

theorem twoEntries_decoded :
    LRSparseGradient.loadSerialized Wire.littleEndian (twoEntries.serialize Wire.littleEndian) = .ok (twoEntries, []) := by
  have decoded := LRSparseGradient.loadSerialized_serialize Wire.littleEndian twoEntries (by decide) (by decide) []
  rwa [List.append_nil] at decoded

theorem oneRating_all_or_nothing :
    AllOrNothing (LrApplied (.sgd 1) twoWeights twoEntries) (.sgd 1, twoWeights) (lrUpdate (.sgd 1) twoWeights twoEntries) ∧
    (lrUpdate (.sgd 1) twoWeights twoEntries).model.2.weights = [7, 10] ∧
    AllOrNothing (MfApplied oneByOne (oneRating 0)) oneByOne (mfUpdate oneByOne (oneRating 0)) := by
  refine ⟨?_, rfl, ?_⟩
  · have sized : OptimizationMethod.HasSize twoWeights 2 := ⟨rfl, rfl⟩
    apply ((gradient_all_or_nothing_iff Wire.littleEndian).1 (.sgd 1) twoWeights 2 sized _ _ _ twoEntries_decoded).mpr
    have both : cell 1 < 2 ∧ cell 0 < 2 := by decide
    exact List.forall_mem_cons.mpr ⟨both.1, List.forall_mem_singleton.mpr both.2⟩
  have formed : oneByOne.WellFormed := by
    constructor <;> decide
  have first : cell 0 < 1 := by decide
  have inModel : MfInModel oneByOne (oneRating 0) := by
    constructor
    · intro e member
      rw [List.mem_singleton.mp member]
      exact first
    · intro e member
      rw [List.mem_singleton.mp member]
      exact first
    · intro e member
      rw [List.mem_singleton.mp member]
      exact first
    · intro e member
      rw [List.mem_singleton.mp member]
      exact first
  exact ((gradient_all_or_nothing_iff Wire.littleEndian).2 oneByOne formed _ _ _ (oneRating_decoded 0)).mpr inModel

/-- A worker with more items than the server: the user's bias is moved and the item's is outside. -/
theorem item_outside_half_applied :
    MFSparseGradient.loadSerialized Wire.littleEndian {} (MFSparseGradient.layout Wire.littleEndian (oneRating 5)) =
      .ok (oneRating 5, []) ∧
    (mfUpdate oneByOne (oneRating 5)).fault = some .undefined ∧
    (mfUpdate oneByOne (oneRating 5)).model.userBias = [1] ∧
    ¬ AllOrNothing (MfApplied oneByOne (oneRating 5)) oneByOne (mfUpdate oneByOne (oneRating 5)) := by
  have undefined : (mfUpdate oneByOne (oneRating 5)).fault = some .undefined := by decide
  exact ⟨oneRating_decoded 5, undefined, by decide, fun all => all.inside undefined⟩

end ModelLock

import Cirrus.Exact
import Cirrus.MFFetch

/-!
A worker's step of matrix factorization: it fetches its part of the model and
computes a gradient, and the server applies it. The server's model then has the
parameters that the worker's copy has reached.
-/
namespace MF
open Gradients SparseLR Factorization Loops
variable {B F : Type}

/-- The worker fetches its part and computes the gradient, and the server applies it. The results are
the worker's model and the server's. -/
def workerStep [Zero F] [Add F] [Sub F] [Mul F] [OfScientific F] (w : Wire B F) (m : MFModel F)
    (ds : SparseDataset F) (config : Configuration F) (baseUser : UInt64) :
    Except Fault (SparseMFModel F × MFModel F) := do
  let model ← SparseMFModel.fetch w m ds baseUser.toUInt32 (UInt32.ofNat ds.data.length)
  let (model, gradient) ← model.minibatchGrad ds config baseUser
  let m ← m.sgdUpdate gradient
  pure (model, m)

theorem ratings_mem {ds : SparseDataset F} {base : Nat} {r : Rating Nat Nat F} (member : r ∈ ratings base ds) :
    (∃ j < ds.data.length, r.user = base + j) ∧ ∃ row ∈ ds.data, ∃ e ∈ row, cell e.1 = r.item := by
  obtain ⟨⟨row, j⟩, listed, inside⟩ := List.mem_flatMap.mp member
  obtain ⟨e, there, rfl⟩ := List.mem_map.mp inside
  obtain ⟨bound, same⟩ := List.mem_zipIdx' listed
  exact ⟨⟨j, bound, rfl⟩, row, same ▸ List.getElem_mem bound, e, there, rfl⟩

section Step
variable [Ring F] [OfScientific F] (w : Wire B F) {m : MFModel F} {p : Params Nat Nat F}
  {ds : SparseDataset F} {config : Configuration F} {baseUser : UInt64}

theorem workerStep_descends (config : Configuration F) (formed : m.WellFormed)
    (users : baseUser.toNat + ds.data.length ≤ m.nusers.toNat)
    (narrow : baseUser.toNat < 2 ^ 32) (small : ∀ j < ds.data.length, baseUser.toNat + j < 2 ^ 31)
    (items : ∀ row ∈ ds.data, ∀ e ∈ row, cell e.1 < m.nitems.toNat ∧ cell e.1 < itemSlots) :
    ∃ L, workerStep w (m.withParams p) ds config baseUser = .ok (L, m.withParams
        ((SparseMFModel.descent config.learningRate).descend p (ratings baseUser.toNat ds))) ∧
      Part (SparseMFModel.descent config.learningRate) baseUser.toNat ds.data.length
        (fun i => ∃ row ∈ ds.data, ∃ e ∈ row, cell e.1 = i)
        ((SparseMFModel.descent config.learningRate).descend p (ratings baseUser.toNat ds)) L := by
  have base : baseUser.toUInt32.toNat = baseUser.toNat := by
    rw [UInt64.toNat_toUInt32]
    exact Nat.mod_eq_of_lt narrow
  have few : baseUser.toNat + ds.data.length < 2 ^ 32 := by
    rcases Nat.eq_zero_or_pos ds.data.length with none | some_row
    · omega
    · have last := small (ds.data.length - 1) (by omega)
      omega
  have count : (UInt32.ofNat ds.data.length).toNat = ds.data.length :=
    UInt32.toNat_ofNat_of_lt' (by rw [UInt32.size]; omega)
  obtain ⟨L, fetched, part⟩ := SparseMFModel.fetch_part (p := p) w formed ds
    baseUser.toUInt32 (UInt32.ofNat ds.data.length) (by rw [base, count]; exact users)
    (by rw [base, count]; omega) items config.learningRate
  rw [base, count] at part
  obtain ⟨s, done, between⟩ := minibatchGrad_gives config part small rfl
    fun row member e there => ⟨(items row member e there).2, row, member, e, there, rfl⟩
  have listed : ∀ slot ∈ s.itemWeightsLst, slot.val < m.nitems.toNat := by
    intro slot member
    obtain ⟨row, there, e, here, same⟩ := between.listed slot member
    rw [← same]
    exact (items row there e here).1
  have applied := MFModel.sgdUpdate_gathered (g := { s.gradient with
    itemsWeightsGrad := s.itemWeightsLst.map fun slot => (toInt slot.val, s.itemWeightsGradMap slot) })
    formed between.users between.items rfl users small listed
  refine ⟨s.model, ?_, between.part⟩
  rw [workerStep, bind_of_ok fetched, bind_of_ok done]
  exact bind_of_ok applied _

structure Reached (m m' : MFModel F) (ds : SparseDataset F) (base : Nat) (L : SparseMFModel F) : Prop where
  users : ∀ j < ds.data.length, ∃ id bias weights, L.userModels[j]? = some (id, bias, weights) ∧
    weights.length = numFactors ∧ m'.userBias[base + j]? = some bias ∧
    ∀ k < numFactors, m'.userWeights[(base + j) * numFactors + k]? = weights[k]?
  items : ∀ row ∈ ds.data, ∀ e ∈ row, ∀ slot : Fin itemSlots, slot.val = cell e.1 →
    (L.itemModels slot).2.length = numFactors ∧ m'.itemBias[slot.val]? = some (L.itemModels slot).1 ∧
    ∀ k < numFactors, m'.itemWeights[slot.val * numFactors + k]? = (L.itemModels slot).2[k]?
  otherUsers : ∀ u, u < base ∨ base + ds.data.length ≤ u → m'.userBias[u]? = m.userBias[u]? ∧
    ∀ k < numFactors, m'.userWeights[u * numFactors + k]? = m.userWeights[u * numFactors + k]?
  otherItems : ∀ i, (∀ row ∈ ds.data, ∀ e ∈ row, cell e.1 ≠ i) → m'.itemBias[i]? = m.itemBias[i]? ∧
    ∀ k < numFactors, m'.itemWeights[i * numFactors + k]? = m.itemWeights[i * numFactors + k]?

/-- A worker's step reaches the server exactly. -/
theorem worker_step_exact (formed : m.WellFormed)
    (users : baseUser.toNat + ds.data.length ≤ m.nusers.toNat)
    (small : baseUser.toNat + ds.data.length ≤ 2 ^ 31)
    (items : ∀ row ∈ ds.data, ∀ e ∈ row, cell e.1 < m.nitems.toNat ∧ cell e.1 < itemSlots) :
    ∃ L m', workerStep w m ds config baseUser = .ok (L, m') ∧ Reached m m' ds baseUser.toNat L := by
  let p := m.params
  let q := (SparseMFModel.descent config.learningRate).descend p (ratings baseUser.toNat ds)
  have whole : m.withParams p = m := formed.withParams_params
  obtain ⟨L, done, part⟩ := workerStep_descends (p := p) w config formed users
    (by omega) (fun j below => by omega) items
  rw [whole] at done
  refine ⟨L, m.withParams q, done, ?_⟩
  constructor
  · intro j below
    obtain ⟨id, found⟩ := part.users j below
    refine ⟨id, _, _, found, vec_length, vec_getElem? (by omega), ?_⟩
    intro k inside
    rw [vec_getElem? inside]
    exact grid_getElem? (by omega) inside
  · intro row member e there slot same
    have bound : slot.val < m.nitems.toNat := same ▸ (items row member e there).1
    rw [part.items slot ⟨row, member, e, there, same.symm⟩]
    refine ⟨vec_length, vec_getElem? bound, ?_⟩
    intro k inside
    rw [vec_getElem? inside]
    exact grid_getElem? bound inside
  · intro u other
    have unrated : ∀ r ∈ ratings baseUser.toNat ds, r.user ≠ u := by
      intro r member same
      obtain ⟨⟨j, below, user⟩, _⟩ := ratings_mem member
      omega
    have still := (SparseMFModel.descent config.learningRate).descend_user p unrated
    rw [← whole]
    exact ⟨vec_entry still.1, fun k inside => grid_row still.2 inside⟩
  · intro i other
    have unrated : ∀ r ∈ ratings baseUser.toNat ds, r.item ≠ i := by
      intro r member same
      obtain ⟨_, row, there, e, here, item⟩ := ratings_mem member
      exact other row there e here (item.trans same)
    have still := (SparseMFModel.descent config.learningRate).descend_item p unrated
    rw [← whole]
    exact ⟨vec_entry still.1, fun k inside => grid_row still.2 inside⟩

end Step

section Limits
variable [Zero F] [Add F] [Sub F] [Mul F] {L L' : SparseMFModel F} {s s' : Minibatch F} {g : MFSparseGradient F}
  {learningRate : F}

theorem rate_keeps_users {user : UInt64} {j : Nat} {e : Int32 × F}
    (done : SparseMFModel.rate learningRate user j s e = .ok s') {k : Int32}
    (key : k ∈ s.gradient.usersBiasGrad) : k ∈ s'.gradient.usersBiasGrad := by
  obtain ⟨pred, _, done⟩ := ok_of_bind done
  obtain ⟨⟨id, userBias, userWeights⟩, _, done⟩ := ok_of_bind done
  obtain ⟨slot, _, done⟩ := ok_of_bind done
  obtain ⟨⟨grad, weights⟩, _, done⟩ := ok_of_bind done
  obtain ⟨item, _, done⟩ := ok_of_bind done
  cases done
  exact (mem_addToMap _).mpr (.inr key)

theorem minibatchGrad_users {ds : SparseDataset F} {config : Configuration F} {baseUser : UInt64}
    (done : SparseMFModel.minibatchGrad L ds config baseUser = .ok (L', g)) :
    ∀ j < ds.data.length, toInt (baseUser + UInt64.ofNat j).toNat ∈ g.usersBiasGrad := by
  obtain ⟨s, rows, done⟩ := ok_of_bind done
  cases done
  have keys := foldlM_ends
    (P := fun seen s => ∀ j < seen.length, toInt (baseUser + UInt64.ofNat j).toNat ∈ s.gradient.usersBiasGrad)
    (by
      intro seen sample before s s' keys one
      obtain ⟨row, j⟩ := sample
      obtain ⟨here, _⟩ := getElem?_of_prefix_zipIdx before
      dsimp only at here
      obtain ⟨t, ratings, one⟩ := ok_of_bind one
      cases one
      have kept := foldlM_ends (P := fun _ t => ∀ i < (seen ++ [(row, j)]).length,
          toInt (baseUser + UInt64.ofNat i).toNat ∈ t.gradient.usersBiasGrad)
        (fun _ _ _ _ _ keys one i below => rate_keeps_users one (keys i below))
        (by
          intro i below
          apply (AList.mem_insert _).mpr
          rw [List.length_append, List.length_singleton] at below
          rcases Nat.lt_succ_iff_lt_or_eq.mp below with earlier | rfl
          · exact .inr (keys i earlier)
          · left
            dsimp only
            rw [here])
        ratings
      exact kept)
    nofun rows
  rwa [List.length_zipIdx] at keys

theorem workerStep_small [OfScientific F] (w : Wire B F) {m m' : MFModel F} (formed : m.WellFormed)
    {ds : SparseDataset F} {config : Configuration F} {baseUser : UInt64} (narrow : baseUser.toNat < 2 ^ 32)
    (done : workerStep w m ds config baseUser = .ok (L, m')) :
    ds.data = [] ∨ baseUser.toNat + ds.data.length ≤ 2 ^ 31 := by
  obtain ⟨model, _, done⟩ := ok_of_bind done
  obtain ⟨⟨model', gradient⟩, computed, done⟩ := ok_of_bind done
  obtain ⟨_, applied, _⟩ := ok_of_bind done
  obtain ⟨userBias, biases, _⟩ := ok_of_bind applied
  by_contra beyond
  have some_row : ds.data.length ≠ 0 := fun zero => beyond (.inl (List.length_eq_zero_iff.mp zero))
  have large : 2 ^ 31 < baseUser.toNat + ds.data.length := Nat.lt_of_not_le fun small => beyond (.inr small)
  let j := 2 ^ 31 - baseUser.toNat
  have below : j < ds.data.length := by omega
  have user : (baseUser + UInt64.ofNat j).toNat = baseUser.toNat + j := by
    rw [UInt64.toNat_add, UInt64.toNat_ofNat_of_lt' (by rw [UInt64.size]; omega)]
    omega
  obtain ⟨x, found⟩ := Option.isSome_iff_exists.mp (AList.lookup_isSome.mpr (minibatchGrad_users computed j below))
  have pair : (toInt (baseUser + UInt64.ofNat j).toNat, x) ∈ MFSparseGradient.pairs gradient.usersBiasGrad :=
    MFModel.mem_pairs.mpr found
  have inside := MFModel.addBiases_inside biases _ pair
  have negative := cell_toInt_large (n := (baseUser + UInt64.ofNat j).toNat) (by omega) (by omega)
  have size := formed.users
  rw [MFModel.maxSize, numFactors] at size
  dsimp only at inside
  rw [formed.userBias] at inside
  omega

end Limits

def settings : Configuration ℚ where
  learningRate := 1
  minibatchSize := 1
  epsilon := 0
  gradThreshold := 0

def zeros : Params Nat Nat ℚ := ⟨fun _ => 0, fun _ => 0, fun _ _ => 0, fun _ _ => 0⟩

def zeroModel (nusers nitems : UInt64) : MFModel ℚ := MFModel.withParams
  { nusers := nusers
    nitems := nitems
    nfactors := 10
    userWeights := []
    itemWeights := []
    userBias := []
    itemBias := []
    globalBias := MFModel.initialGlobalBias } zeros

theorem zeroModel_formed {nusers nitems : UInt64} (users : nusers.toNat * numFactors ≤ MFModel.maxSize)
    (items : nitems.toNat * numFactors ≤ MFModel.maxSize) : (zeroModel nusers nitems).WellFormed where
  nfactors := rfl
  userBias := vec_length
  itemBias := vec_length
  userWeights := vec_length
  itemWeights := vec_length
  users := users
  items := items

theorem worker_step_exact_two_users :
    ∃ L m', workerStep Exact.wire (zeroModel 2 1) ⟨[[(0, 3)], [(0, 4)]], []⟩ settings 0 = .ok (L, m') ∧
      Reached (zeroModel 2 1) m' ⟨[[(0, 3)], [(0, 4)]], []⟩ 0 L :=
  worker_step_exact Exact.wire (zeroModel_formed (by decide) (by decide)) (by decide) (by decide) (by decide)

/-- The last user of a model with 2^31 + 1 users has a negative id in the gradient. -/
theorem far_user_undefined :
    ¬ ∀ (m : MFModel ℚ) (ds : SparseDataset ℚ) (config : Configuration ℚ) (baseUser : UInt64),
      m.WellFormed → baseUser.toNat + ds.data.length ≤ m.nusers.toNat →
      (∀ row ∈ ds.data, ∀ e ∈ row, cell e.1 < m.nitems.toNat ∧ cell e.1 < itemSlots) →
      ∃ L m', workerStep Exact.wire m ds config baseUser = .ok (L, m') ∧ Reached m m' ds baseUser.toNat L := by
  intro always
  have formed : (zeroModel 2147483649 0).WellFormed := zeroModel_formed (by decide) (by decide)
  obtain ⟨L, m', done, _⟩ := always (zeroModel 2147483649 0) ⟨[[]], []⟩ settings 2147483648 formed
    (by decide) (by decide)
  have near := workerStep_small Exact.wire formed (by decide) done
  exact absurd near (by decide)

end MF

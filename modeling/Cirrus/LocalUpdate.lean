import Cirrus.WorkerStep
import Mathlib.Algebra.Field.Basic
import Mathlib.Tactic.NormNum
import Mathlib.Tactic.NormNum.OfScientific

/-!
The same minibatch in a worker's step and in the local `MFModel::sgd_update` of
a dataset. The first descends with the regularization of `SparseMFModel`, the
second with that of `MFModel`, which is another one.
-/
namespace MF
open Gradients SparseLR Factorization Loops
variable {B F : Type}

def truncate (n : Nat) : List (List (Int32 × F)) → List (List (Int32 × F))
  | [] => []
  | row :: rest => row.take n :: truncate (n - row.length) rest

def firstRatings (ds : SparseDataset F) (n : Nat) : SparseDataset F :=
  { ds with data := truncate n ds.data }

theorem truncate_length (n : Nat) (rows : List (List (Int32 × F))) : (truncate n rows).length = rows.length := by
  induction rows generalizing n with
  | nil => rfl
  | cons row rest ih => rw [truncate, List.length_cons, List.length_cons, ih]

theorem truncate_subset {n : Nat} {rows : List (List (Int32 × F))} {row : List (Int32 × F)}
    (member : row ∈ truncate n rows) {e : Int32 × F} (there : e ∈ row) : ∃ row ∈ rows, e ∈ row := by
  induction rows generalizing n with
  | nil => cases member
  | cons first rest ih =>
    rcases List.mem_cons.mp member with rfl | later
    · exact ⟨first, List.mem_cons_self, List.mem_of_mem_take there⟩
    · obtain ⟨row', listed, there'⟩ := ih later
      exact ⟨row', List.mem_cons_of_mem _ listed, there'⟩

theorem ratings_firstRatings (base n : Nat) (ds : SparseDataset F) :
    ratings base (firstRatings ds n) = (ratings base ds).take n := by
  have rows : ∀ (rows : List (List (Int32 × F))) n start,
      ((truncate n rows).zipIdx start).flatMap (rowRatings base) =
        ((rows.zipIdx start).flatMap (rowRatings base)).take n := by
    intro rows
    induction rows with
    | nil => intro n start; rw [truncate, List.zipIdx_nil, List.flatMap_nil, List.take_nil]
    | cons row rest ih =>
      intro n start
      have size : (rowRatings base (row, start)).length = row.length := List.length_map _
      rw [truncate, List.zipIdx_cons, List.zipIdx_cons, List.flatMap_cons, List.flatMap_cons, ih,
        List.take_append, size]
      congr 1
      rw [rowRatings, rowRatings, List.map_take]
  exact rows ds.data n 0

theorem truncate_all {n : Nat} {rows : List (List (Int32 × F))} (enough : rows.flatten.length ≤ n) :
    truncate n rows = rows := by
  induction rows generalizing n with
  | nil => rfl
  | cons row rest ih =>
    rw [List.flatten_cons, List.length_append] at enough
    rw [truncate, List.take_of_length_le (by omega), ih (by omega)]

theorem withParams_same_iff {m : MFModel F} {p q : Params Nat Nat F} :
    ((m.withParams p).userBias = (m.withParams q).userBias ∧ (m.withParams p).itemBias = (m.withParams q).itemBias ∧
      (m.withParams p).userWeights = (m.withParams q).userWeights ∧
      (m.withParams p).itemWeights = (m.withParams q).itemWeights) ↔
    Alike numFactors (· < m.nusers.toNat) (· < m.nitems.toNat) p q := by
  constructor
  · intro ⟨userBias, itemBias, userWeights, itemWeights⟩
    exact ⟨vec_inj userBias, vec_inj itemBias, grid_inj userWeights, grid_inj itemWeights⟩
  · intro alike
    exact ⟨vec_congr alike.userBias, vec_congr alike.itemBias, grid_congr alike.userFactors,
      grid_congr alike.itemFactors⟩

section Agreement
variable {ds : SparseDataset F} {base : UInt32}

/-- The ids are among those that the worker's arrays and the gradient's maps have room for. -/
structure InRange (ds : SparseDataset F) (base : UInt32) : Prop where
  items : ∀ row ∈ ds.data, ∀ e ∈ row, cell e.1 < itemSlots
  users : ds.data = [] ∨ base.toNat + ds.data.length ≤ 2 ^ 31

theorem InRange.firstRatings (inside : InRange ds base) (n : Nat) : InRange (firstRatings ds n) base where
  items := by
    intro row member e there
    obtain ⟨row', listed, there'⟩ := truncate_subset member there
    exact inside.items row' listed e there'
  users := by
    rcases inside.users with none | near
    · left
      rw [MF.firstRatings, none]
      rfl
    · right
      rwa [MF.firstRatings, truncate_length]

variable [Field F] (w : Wire B F) {m : MFModel F} {config : Configuration F}

/-- The server's model after a worker's step has the biases and weights that the local update gives it. -/
def Agrees (m : MFModel F) (ds : SparseDataset F) (config : Configuration F) (baseUser : UInt64) : Prop :=
  ∃ updated L m', m.sgdUpdateDataset MFModel.initializeRegParams config.learningRate baseUser ds = .ok updated ∧
    workerStep w m ds config baseUser = .ok (L, m') ∧ m'.userBias = updated.userBias ∧
    m'.itemBias = updated.itemBias ∧ m'.userWeights = updated.userWeights ∧ m'.itemWeights = updated.itemWeights

theorem agrees_alike (formed : m.WellFormed) (fresh : m.globalBias = MFModel.initialGlobalBias)
    (users : base.toNat + ds.data.length ≤ m.nusers.toNat)
    (items : ∀ row ∈ ds.data, ∀ e ∈ row, cell e.1 < m.nitems.toNat) (inside : InRange ds base) :
    Agrees w m ds config base.toUInt64 ↔ Alike numFactors (· < m.nusers.toNat) (· < m.nitems.toNat)
      ((SparseMFModel.descent config.learningRate).descend m.params (ratings base.toNat ds))
      (((SparseMFModel.descent config.learningRate).withReg MFModel.initializeRegParams).descend m.params
        (ratings base.toNat ds)) := by
  have whole : m.withParams m.params = m := formed.withParams_params
  have same : base.toUInt64.toNat = base.toNat := UInt32.toNat_toUInt64 base
  have narrow := UInt32.toNat_lt base
  have small : ∀ j < ds.data.length, base.toUInt64.toNat + j < 2 ^ 31 := by
    intro j below
    rcases inside.users with none | near
    · rw [none] at below
      cases below
    · omega
  have few : base.toUInt64.toNat + ds.data.length ≤ 2 ^ 32 := by
    rcases inside.users with none | near
    · rw [none, List.length_nil]
      omega
    · omega
  have reg : m.descent MFModel.initializeRegParams config.learningRate =
      (SparseMFModel.descent config.learningRate).withReg MFModel.initializeRegParams := by
    rw [MFModel.descent, fresh]
    rfl
  have updated := MFModel.sgdUpdateDataset_withParams (p := m.params) MFModel.initializeRegParams
    config.learningRate formed (by rwa [same]) few items
  obtain ⟨L, stepped, _⟩ := workerStep_descends (p := m.params) w config formed (by rwa [same])
    (by omega) small fun row member e there => ⟨items row member e there, inside.items row member e there⟩
  rw [whole, reg, same] at updated
  rw [whole, same] at stepped
  constructor
  · intro ⟨updated', L', m', done, stepped', userBias, itemBias, userWeights, itemWeights⟩
    rw [updated] at done
    rw [stepped] at stepped'
    cases done
    cases stepped'
    exact withParams_same_iff.mp ⟨userBias, itemBias, userWeights, itemWeights⟩
  · intro alike
    obtain ⟨userBias, itemBias, userWeights, itemWeights⟩ := withParams_same_iff.mpr alike
    exact ⟨_, _, _, updated, stepped, userBias, itemBias, userWeights, itemWeights⟩

theorem Agrees.inRange (formed : m.WellFormed) (agrees : Agrees w m ds config base.toUInt64) :
    InRange ds base := by
  obtain ⟨_, L, m', _, stepped, _⟩ := agrees
  have narrow : base.toUInt64.toNat < 2 ^ 32 := by
    rw [UInt32.toNat_toUInt64]
    exact UInt32.toNat_lt base
  have users := workerStep_small w formed narrow stepped
  obtain ⟨model, fetched, _⟩ := ok_of_bind stepped
  obtain ⟨ids, listed, _⟩ := ok_of_bind fetched
  exact { items := inside_of_itemIds listed, users := by rwa [UInt32.toNat_toUInt64] at users }

variable [CharZero F]

structure Unregularized (learningRate : F) (p : Params Nat Nat F) (r : Rating Nat Nat F) : Prop where
  userBias : learningRate * p.userBias r.user = 0
  itemBias : learningRate * p.itemBias r.item = 0
  userFactors : ∀ k < numFactors, learningRate * p.userFactors r.user k = 0
  itemFactors : ∀ k < numFactors, learningRate * p.itemFactors r.item k = 0

theorem harmless_iff {learningRate : F} {p : Params Nat Nat F} {r : Rating Nat Nat F} :
    (SparseMFModel.descent learningRate).Harmless MFModel.initializeRegParams p r ↔
      Unregularized learningRate p r := by
  have apart : (0.05 - 0.01 : F) ≠ 0 := by norm_num
  have zero : ∀ x : F, learningRate * ((0.05 - 0.01) * x) = 0 ↔ learningRate * x = 0 := by
    intro x
    rw [mul_left_comm, mul_eq_zero, or_iff_right apart]
  constructor
  · intro harmless
    exact
      { userBias := (zero _).mp harmless.userBias
        itemBias := (zero _).mp harmless.itemBias
        userFactors := fun k below => (zero _).mp (harmless.userFactors k below)
        itemFactors := fun k below => (zero _).mp (harmless.itemFactors k below) }
  · intro still
    exact
      { userBias := (zero _).mpr still.userBias
        itemBias := (zero _).mpr still.itemBias
        userFactors := fun k below => (zero _).mpr (still.userFactors k below)
        itemFactors := fun k below => (zero _).mpr (still.itemFactors k below) }

/-- The worker's step agrees with the local update, up to every rating of the minibatch, exactly if the
ids are in range and no rating finds a value that the regularization terms would change. -/
theorem local_update_agrees_iff (formed : m.WellFormed) (fresh : m.globalBias = MFModel.initialGlobalBias)
    (users : base.toNat + ds.data.length ≤ m.nusers.toNat)
    (items : ∀ row ∈ ds.data, ∀ e ∈ row, cell e.1 < m.nitems.toNat) :
    (∀ n, Agrees w m (firstRatings ds n) config base.toUInt64) ↔
      InRange ds base ∧ ∀ seen r, seen ++ [r] <+: ratings base.toNat ds → Unregularized config.learningRate
        ((SparseMFModel.descent config.learningRate).descend m.params seen) r := by
  let d : Descent F := SparseMFModel.descent config.learningRate
  have each : InRange ds base → ∀ n, (Agrees w m (firstRatings ds n) config base.toUInt64 ↔
      Alike numFactors (· < m.nusers.toNat) (· < m.nitems.toNat) (d.descend m.params ((ratings base.toNat ds).take n))
        ((d.withReg MFModel.initializeRegParams).descend m.params ((ratings base.toNat ds).take n))) := by
    intro inside n
    rw [agrees_alike w formed fresh (by rwa [firstRatings, truncate_length]) _ (inside.firstRatings n),
      ratings_firstRatings]
    intro row member e there
    obtain ⟨row', listed, there'⟩ := truncate_subset member there
    exact items row' listed e there'
  have known : ∀ r ∈ ratings base.toNat ds, r.user < m.nusers.toNat ∧ r.item < m.nitems.toNat := by
    intro r member
    obtain ⟨⟨j, below, user⟩, row, listed, e, there, item⟩ := ratings_mem member
    rw [user, ← item]
    exact ⟨by omega, items row listed e there⟩
  have harmless : (∀ seen, seen <+: ratings base.toNat ds →
      Alike numFactors (· < m.nusers.toNat) (· < m.nitems.toNat) (d.descend m.params seen)
        ((d.withReg MFModel.initializeRegParams).descend m.params seen)) ↔
      ∀ seen r, seen ++ [r] <+: ratings base.toNat ds →
        d.Harmless MFModel.initializeRegParams (d.descend m.params seen) r :=
    Descent.descend_alike_iff (d := d) known
  constructor
  · intro agrees
    have inside : InRange ds base := by
      have last := agrees ds.data.flatten.length
      rw [firstRatings, truncate_all (Nat.le_refl _)] at last
      exact Agrees.inRange w formed last
    refine ⟨inside, ?_⟩
    intro seen r before
    apply harmless_iff.mp
    apply harmless.mp _ seen r before
    intro seen before
    rw [List.prefix_iff_eq_take.mp before]
    exact (each inside _).mp (agrees _)
  · intro ⟨inside, still⟩ n
    apply (each inside n).mpr
    apply harmless.mpr _ _ (List.take_prefix _ _)
    exact fun seen r before => harmless_iff.mpr (still seen r before)

end Agreement

def biasedModel : MFModel ℚ := (zeroModel 1 1).withParams { zeros with userBias := fun _ => 1 }

theorem biasedModel_formed : biasedModel.WellFormed where
  nfactors := rfl
  userBias := vec_length
  itemBias := vec_length
  userWeights := vec_length
  itemWeights := vec_length
  users := by decide
  items := by decide

def oneRating : SparseDataset ℚ := { data := [[(0, 3)]], labels := [] }

theorem local_update_agrees_without_bias :
    Agrees Exact.wire (zeroModel 1 1) (firstRatings oneRating 1) settings (0 : UInt32).toUInt64 := by
  apply (local_update_agrees_iff Exact.wire (zeroModel_formed (by decide) (by decide)) rfl (by decide)
    (by decide)).mpr _ 1
  refine ⟨⟨by decide, .inr (by decide)⟩, ?_⟩
  intro seen r before
  have here : ratings (0 : UInt32).toNat oneRating = [⟨0, 0, 3⟩] := rfl
  rw [here] at before
  have few := before.length_le
  cases seen with
  | nil =>
    obtain rfl : r = ⟨0, 0, 3⟩ := List.singleton_inj.mp (before.eq_of_length rfl)
    exact ⟨by decide +kernel, by decide +kernel, by decide +kernel, by decide +kernel⟩
  | cons first rest => simp at few

/-- The two classes shrink the user's bias differently. -/
theorem bias_regularized_differently :
    ¬ ∀ (m : MFModel ℚ) (ds : SparseDataset ℚ) (config : Configuration ℚ) (base : UInt32),
      m.WellFormed → m.globalBias = MFModel.initialGlobalBias →
      base.toNat + ds.data.length ≤ m.nusers.toNat →
      (∀ row ∈ ds.data, ∀ e ∈ row, cell e.1 < m.nitems.toNat) →
      Agrees Exact.wire m ds config base.toUInt64 := by
  intro always
  have agrees := always biasedModel oneRating settings 0 biasedModel_formed rfl (by decide) (by decide)
  have inside := Agrees.inRange Exact.wire biasedModel_formed agrees
  have alike := (agrees_alike Exact.wire biasedModel_formed rfl (by decide) (by decide) inside).mp agrees
  have here : ratings (0 : UInt32).toNat oneRating = [⟨0, 0, 3⟩] := rfl
  rw [here] at alike
  have harmless : (SparseMFModel.descent 1).Harmless MFModel.initializeRegParams biasedModel.params ⟨0, 0, 3⟩ :=
    (Descent.move_alike_iff (d := SparseMFModel.descent 1) (.refl _ _ _ biasedModel.params)
      (show 0 < biasedModel.nusers.toNat by decide) (show 0 < biasedModel.nitems.toNat by decide)).mp alike
  have still := (harmless_iff.mp harmless).userBias
  exact absurd still (by decide +kernel)

end MF

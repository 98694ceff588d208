import Cirrus.MFStep

/-!
The dense model as a function of its parameters: what `MFModel` computes on the
vectors of a well-formed model are moves of the parameters.
-/
namespace MF
open Gradients SparseLR Factorization Loops
variable {F : Type}

def grid (n : Nat) (f : Nat → Nat → F) : List F :=
  vec (n * numFactors) fun c => f (c / numFactors) (c % numFactors)

section Grid
variable {n u k : Nat} {f : Nat → Nat → F}

theorem row_of_cell (inside : k < numFactors) :
    (u * numFactors + k) / numFactors = u ∧ (u * numFactors + k) % numFactors = k := by
  rw [numFactors] at *
  omega

theorem cell_bound (bound : u < n) (inside : k < numFactors) : u * numFactors + k < n * numFactors := by
  rw [numFactors] at *
  omega

theorem grid_getElem? (bound : u < n) (inside : k < numFactors) :
    (grid n f)[u * numFactors + k]? = some (f u k) := by
  obtain ⟨row, column⟩ := row_of_cell (u := u) inside
  rw [grid, vec_getElem? (cell_bound bound inside), row, column]

theorem grid_set (inside : k < numFactors) (x : F) :
    (grid n f).set (u * numFactors + k) x = grid n (Function.update f u (Function.update (f u) k x)) := by
  rw [grid, vec_set, grid]
  congr 1
  funext c
  obtain ⟨row, column⟩ := row_of_cell (u := u) inside
  rcases Nat.decEq c (u * numFactors + k) with different | rfl
  · rw [Function.update_of_ne different]
    rcases Nat.decEq (c / numFactors) u with other | rfl
    · rw [Function.update_of_ne other]
    · have other : c % numFactors ≠ k := by
        intro same
        rw [numFactors] at *
        omega
      rw [Function.update_self, Function.update_of_ne other]
  · rw [Function.update_self, row, column, Function.update_self, Function.update_self]

theorem eq_grid {v : List F} (size : v.length = n * numFactors)
    (values : ∀ u < n, ∀ k < numFactors, v[u * numFactors + k]? = some (f u k)) : v = grid n f := by
  apply eq_vec size
  intro c bound
  have split : c / numFactors * numFactors + c % numFactors = c := Nat.div_add_mod' c numFactors
  have row : c / numFactors < n := Nat.div_lt_of_lt_mul (by rwa [Nat.mul_comm])
  have found := values _ row _ (Nat.mod_lt c (by decide))
  rwa [split] at found

theorem grid_congr {f g : Nat → Nat → F} (same : ∀ u < n, ∀ k < numFactors, f u k = g u k) :
    grid n f = grid n g :=
  eq_grid vec_length fun u bound k inside => by rw [grid_getElem? bound inside, same u bound k inside]

theorem grid_inj {f g : Nat → Nat → F} (same : grid n f = grid n g) :
    ∀ u < n, ∀ k < numFactors, f u k = g u k := by
  intro u bound k inside
  have entry := grid_getElem? (f := f) bound inside
  rw [same, grid_getElem? bound inside] at entry
  exact (Option.some.inj entry).symm

theorem grid_row {g : Nat → Nat → F} (same : f u = g u) (inside : k < numFactors) :
    (grid n f)[u * numFactors + k]? = (grid n g)[u * numFactors + k]? := by
  rcases Nat.lt_or_ge u n with bound | beyond
  · rw [grid_getElem? bound inside, grid_getElem? bound inside, same]
  · have past : ∀ h : Nat → Nat → F, (grid n h).length ≤ u * numFactors + k := by
      intro h
      rw [grid, vec_length, numFactors]
      omega
    rw [List.getElem?_eq_none (past f), List.getElem?_eq_none (past g)]

end Grid

namespace MFModel

/-- `std::vector<FEATURE_TYPE>::max_size()`. -/
def maxSize : Nat := 2 ^ 61 - 1

/-- A model with NUM_FACTORS factors whose vectors have the sizes that the constructor gives them. -/
structure WellFormed (m : MFModel F) : Prop where
  nfactors : m.nfactors = UInt64.ofNat numFactors
  userBias : m.userBias.length = m.nusers.toNat
  itemBias : m.itemBias.length = m.nitems.toNat
  userWeights : m.userWeights.length = m.nusers.toNat * numFactors
  itemWeights : m.itemWeights.length = m.nitems.toNat * numFactors
  users : m.nusers.toNat * numFactors ≤ maxSize
  items : m.nitems.toNat * numFactors ≤ maxSize

def params [Zero F] (m : MFModel F) : Params Nat Nat F where
  userBias u := m.userBias.getD u 0
  itemBias i := m.itemBias.getD i 0
  userFactors u k := m.userWeights.getD (u * numFactors + k) 0
  itemFactors i k := m.itemWeights.getD (i * numFactors + k) 0

def withParams (m : MFModel F) (p : Params Nat Nat F) : MFModel F := { m with
  userBias := vec m.nusers.toNat p.userBias
  itemBias := vec m.nitems.toNat p.itemBias
  userWeights := grid m.nusers.toNat p.userFactors
  itemWeights := grid m.nitems.toNat p.itemFactors }

theorem WellFormed.withParams_params [Zero F] {m : MFModel F} (formed : m.WellFormed) :
    m.withParams m.params = m := by
  have value : ∀ (v : List F) c, c < v.length → v[c]? = some (v.getD c 0) := by
    intro v c inside
    rw [List.getD_eq_getElem?_getD, List.getElem?_eq_getElem inside, Option.getD_some]
  have userBias := eq_vec formed.userBias fun u bound => value _ u (by rwa [formed.userBias])
  have itemBias := eq_vec formed.itemBias fun i bound => value _ i (by rwa [formed.itemBias])
  have userWeights := eq_grid formed.userWeights fun u bound k inside =>
    value _ _ (by rw [formed.userWeights]; exact cell_bound bound inside)
  have itemWeights := eq_grid formed.itemWeights fun i bound k inside =>
    value _ _ (by rw [formed.itemWeights]; exact cell_bound bound inside)
  rw [withParams]
  congr
  · exact userWeights.symm
  · exact itemWeights.symm
  · exact userBias.symm
  · exact itemBias.symm

theorem weight_cell {n : Nat} {id nfactors : UInt64} {k : Nat} (known : nfactors = UInt64.ofNat numFactors)
    (size : n * numFactors ≤ maxSize) (bound : id.toNat < n) (inside : k < numFactors) :
    (id * nfactors + UInt64.ofNat k).toNat = id.toNat * numFactors + k := by
  have small : k < UInt64.size := by
    rw [numFactors] at inside
    rw [UInt64.size]
    omega
  subst known
  rw [UInt64.toNat_add, UInt64.toNat_mul, UInt64.toNat_ofNat_of_lt' small]
  rw [maxSize, numFactors] at *
  change (id.toNat * 10 % 2 ^ 64 + k) % 2 ^ 64 = _
  omega

section Accessors
variable {m : MFModel F} {p : Params Nat Nat F} {id : UInt64} {k : Nat}

theorem getUserWeights_withParams (formed : m.WellFormed) (bound : id.toNat < m.nusers.toNat)
    (inside : k < numFactors) :
    (m.withParams p).getUserWeights id (UInt64.ofNat k) = .ok (p.userFactors id.toNat k) := by
  rw [getUserWeights, userCell, checkedAt, withParams]
  dsimp only
  rw [weight_cell formed.nfactors formed.users bound inside, grid_getElem? bound inside]

theorem getItemWeights_withParams (formed : m.WellFormed) (bound : id.toNat < m.nitems.toNat)
    (inside : k < numFactors) :
    (m.withParams p).getItemWeights id (UInt64.ofNat k) = .ok (p.itemFactors id.toNat k) := by
  rw [getItemWeights, itemCell, checkedAt, withParams]
  dsimp only
  rw [weight_cell formed.nfactors formed.items bound inside, grid_getElem? bound inside]

theorem addCheckedAt_grid [Add F] {n : Nat} {f : Nat → Nat → F} {nfactors : UInt64}
    (known : nfactors = UInt64.ofNat numFactors) (size : n * numFactors ≤ maxSize) (bound : id.toNat < n)
    (inside : k < numFactors) (x : F) :
    addCheckedAt (grid n f) (id * nfactors + UInt64.ofNat k).toNat x =
      .ok (grid n (Function.update f id.toNat (Function.update (f id.toNat) k (f id.toNat k + x)))) := by
  rw [addCheckedAt, checkedAt, weight_cell known size bound inside, grid_getElem? bound inside]
  exact congrArg Except.ok (grid_set inside _)

end Accessors

section Rows
variable [Add F] {n u : Nat} {f : Nat → Nat → F} {d : Nat → F}

theorem addCheckedAt_partway {id nfactors : UInt64} {j : Nat} (known : nfactors = UInt64.ofNat numFactors)
    (size : n * numFactors ≤ maxSize) (bound : id.toNat < n) (inside : j < numFactors) :
    addCheckedAt (grid n (Function.update f id.toNat (partway j (f id.toNat) d)))
      (id * nfactors + UInt64.ofNat j).toNat (d j) =
    .ok (grid n (Function.update f id.toNat (partway (j + 1) (f id.toNat) d))) := by
  rw [addCheckedAt_grid known size bound inside, Function.update_self, Function.update_idem, partway_here,
    partway_succ]

theorem grid_moved :
    grid n (Function.update f u (partway numFactors (f u) d)) =
      grid n (Function.update f u fun k => f u k + d k) := by
  apply grid_congr
  intro v bound k inside
  rcases Nat.decEq v u with apart | rfl
  · rw [Function.update_of_ne apart, Function.update_of_ne apart]
  · rw [Function.update_self, Function.update_self, partway, if_pos inside]

end Rows

theorem predict_withParams [Add F] [Mul F] {m : MFModel F} {p : Params Nat Nat F} {user item : UInt64}
    (formed : m.WellFormed) (bound : user.toNat < m.nusers.toNat)
    (small : user.toNat < 2 ^ 32) (bound' : item.toNat < m.nitems.toNat) (small' : item.toNat < 2 ^ 32) :
    (m.withParams p).predict user.toUInt32 item.toUInt32 =
      .ok (Factorization.predict numFactors m.globalBias p user.toNat item.toNat) := by
  have narrow : ∀ id : UInt64, id.toNat < 2 ^ 32 → id.toUInt32.toUInt64 = id := by
    intro id small
    apply UInt64.toNat_inj.mp
    rw [UInt32.toNat_toUInt64, UInt64.toNat_toUInt32]
    exact Nat.mod_eq_of_lt small
  have userBias : at' (m.withParams p).userBias user.toUInt32.toNat = .ok (p.userBias user.toNat) := by
    rw [UInt64.toNat_toUInt32, Nat.mod_eq_of_lt small]
    exact at'_vec bound
  have itemBias : at' (m.withParams p).itemBias item.toUInt32.toNat = .ok (p.itemBias item.toNat) := by
    rw [UInt64.toNat_toUInt32, Nat.mod_eq_of_lt small']
    exact at'_vec bound'
  have factors : (m.withParams p).nfactors.toNat = numFactors := by
    rw [withParams, formed.nfactors]
    rfl
  rw [MFModel.predict, bind_of_ok userBias, bind_of_ok itemBias, factors, narrow user small, narrow item small']
  obtain ⟨res, done, value⟩ := foldlM_gives (l := List.range numFactors)
    (s := m.globalBias + p.userBias user.toNat + p.itemBias item.toNat)
    (f := fun res k => (do
      pure (res + (← (m.withParams p).getUserWeights user (UInt64.ofNat k)) *
        (← (m.withParams p).getItemWeights item (UInt64.ofNat k))) : Except Fault F))
    (P := fun seen res => res = seen.foldl
      (fun res k => res + p.userFactors user.toNat k * p.itemFactors item.toNat k)
      (m.globalBias + p.userBias user.toNat + p.itemBias item.toNat))
    (by
      intro seen k here s state
      obtain ⟨_, inside⟩ := eq_length_of_prefix_range here
      rw [getUserWeights_withParams formed bound inside, getItemWeights_withParams formed bound' inside,
        List.foldl_append, ← state]
      exact ⟨_, rfl, rfl⟩)
    rfl
  rw [Factorization.predict, ← value]
  exact done

section Local
variable [Add F] [Sub F] [Mul F] {m : MFModel F} {p : Params Nat Nat F} {user item : UInt64}
  {rate error reg : F}

theorem moveUser_withParams (formed : m.WellFormed) (bound : user.toNat < m.nusers.toNat)
    (bound' : item.toNat < m.nitems.toNat) {moved : Nat → F}
    (move : ∀ k, moved k = p.userFactors user.toNat k +
      factorDelta rate error reg (p.itemFactors item.toNat k) (p.userFactors user.toNat k)) :
    moveUser rate error reg user item (m.withParams p) =
      .ok (m.withParams { p with userFactors := Function.update p.userFactors user.toNat moved }) := by
  let u := user.toNat
  let d := fun k => factorDelta rate error reg (p.itemFactors item.toNat k) (p.userFactors u k)
  let row := fun j => Function.update p.userFactors u (partway j (p.userFactors u) d)
  let after := fun j => m.withParams { p with userFactors := row j }
  have start : m.withParams p = after 0 := by
    simp only [after, row, partway_zero, Function.update_eq_self]
  obtain ⟨s, done, rfl⟩ := foldlM_gives (l := List.range numFactors) (s := m.withParams p)
    (f := fun m k => do
      let deltaUserW := factorDelta rate error reg
        (← m.getItemWeights item (UInt64.ofNat k)) (← m.getUserWeights user (UInt64.ofNat k))
      pure { m with userWeights := ← addCheckedAt m.userWeights (m.userCell user (UInt64.ofNat k)) deltaUserW })
    (P := fun seen s => s = after seen.length)
    (by
      intro seen j here s state
      subst state
      obtain ⟨rfl, inside⟩ := eq_length_of_prefix_range here
      refine ⟨_, ?_, rfl⟩
      have value : row seen.length u seen.length = p.userFactors u seen.length := by
        simp only [row, Function.update_self, partway_here]
      have own : (after seen.length).getUserWeights user (UInt64.ofNat seen.length) =
          .ok (p.userFactors u seen.length) :=
        (getUserWeights_withParams formed bound inside).trans (congrArg Except.ok value)
      have other : (after seen.length).getItemWeights item (UInt64.ofNat seen.length) =
          .ok (p.itemFactors item.toNat seen.length) := getItemWeights_withParams formed bound' inside
      rw [List.length_append, List.length_singleton, bind_of_ok other, bind_of_ok own]
      exact bind_of_ok (addCheckedAt_partway formed.nfactors formed.users bound inside) _)
    start
  have known : (m.withParams p).nfactors.toNat = numFactors := by
    rw [withParams, formed.nfactors]
    rfl
  rw [moveUser, known, done, List.length_range, funext move]
  simp only [after, row, withParams, grid_moved]
  rfl

theorem moveItem_withParams (formed : m.WellFormed) (bound : user.toNat < m.nusers.toNat)
    (bound' : item.toNat < m.nitems.toNat) {moved : Nat → F}
    (move : ∀ k, moved k = p.itemFactors item.toNat k +
      factorDelta rate error reg (p.userFactors user.toNat k) (p.itemFactors item.toNat k)) :
    moveItem rate error reg user item (m.withParams p) =
      .ok (m.withParams { p with itemFactors := Function.update p.itemFactors item.toNat moved }) := by
  let i := item.toNat
  let d := fun k => factorDelta rate error reg (p.userFactors user.toNat k) (p.itemFactors i k)
  let row := fun j => Function.update p.itemFactors i (partway j (p.itemFactors i) d)
  let after := fun j => m.withParams { p with itemFactors := row j }
  have start : m.withParams p = after 0 := by
    simp only [after, row, partway_zero, Function.update_eq_self]
  obtain ⟨s, done, rfl⟩ := foldlM_gives (l := List.range numFactors) (s := m.withParams p)
    (f := fun m k => do
      let deltaItemW := factorDelta rate error reg
        (← m.getUserWeights user (UInt64.ofNat k)) (← m.getItemWeights item (UInt64.ofNat k))
      pure { m with itemWeights := ← addCheckedAt m.itemWeights (m.itemCell item (UInt64.ofNat k)) deltaItemW })
    (P := fun seen s => s = after seen.length)
    (by
      intro seen j here s state
      subst state
      obtain ⟨rfl, inside⟩ := eq_length_of_prefix_range here
      refine ⟨_, ?_, rfl⟩
      have value : row seen.length i seen.length = p.itemFactors i seen.length := by
        simp only [row, Function.update_self, partway_here]
      have own : (after seen.length).getItemWeights item (UInt64.ofNat seen.length) =
          .ok (p.itemFactors i seen.length) :=
        (getItemWeights_withParams formed bound' inside).trans (congrArg Except.ok value)
      have other : (after seen.length).getUserWeights user (UInt64.ofNat seen.length) =
          .ok (p.userFactors user.toNat seen.length) := getUserWeights_withParams formed bound inside
      rw [List.length_append, List.length_singleton, bind_of_ok other, bind_of_ok own]
      exact bind_of_ok (addCheckedAt_partway formed.nfactors formed.items bound' inside) _)
    start
  have known : (m.withParams p).nfactors.toNat = numFactors := by
    rw [withParams, formed.nfactors]
    rfl
  rw [moveItem, known, done, List.length_range, funext move]
  simp only [after, row, withParams, grid_moved]
  rfl

def descent (m : MFModel F) (reg : Regularization F) (learningRate : F) : Descent F where
  factors := numFactors
  globalBias := m.globalBias
  rate := learningRate
  reg := reg

theorem rate_withParams {reg : Regularization F} {learningRate : F} (formed : m.WellFormed)
    (bound : user.toNat < m.nusers.toNat) (small : user.toNat < 2 ^ 32) {e : Int32 × F}
    (bound' : cell e.1 < m.nitems.toNat) :
    MFModel.rate reg learningRate user (m.withParams p) e =
      .ok (m.withParams ((m.descent reg learningRate).move p ⟨user.toNat, cell e.1, e.2⟩)) := by
  let d := m.descent reg learningRate
  let r : Rating Nat Nat F := ⟨user.toNat, cell e.1, e.2⟩
  have items := formed.items
  have narrow : cell e.1 < 2 ^ 31 := by
    rw [maxSize, numFactors] at items
    exact cell_small (by omega)
  have pred := predict_withParams (p := p) formed bound small (show (wide e.1).toNat < m.nitems.toNat from bound')
    (Nat.lt_trans narrow (by decide))
  have inside : ¬ (m.nitems ≤ wide e.1 ∨ m.nusers ≤ user) := by
    rw [UInt64.le_iff_toNat_le, UInt64.le_iff_toNat_le]
    have same : (wide e.1).toNat = cell e.1 := rfl
    omega
  have userBias : addAt (m.withParams p).userBias user.toNat (d.userBiasDelta p r) =
      .ok (vec m.nusers.toNat (d.move p r).userBias) := addAt_vec bound _
  have itemBias : addAt (m.withParams p).itemBias (wide e.1).toNat (d.itemBiasDelta p r) =
      .ok (vec m.nitems.toNat (d.move p r).itemBias) := addAt_vec bound' _
  have own : at' (m.withParams p).userBias user.toNat = .ok (p.userBias user.toNat) := at'_vec bound
  have own' : at' (m.withParams p).itemBias (wide e.1).toNat = .ok (p.itemBias (cell e.1)) := at'_vec bound'
  let biased : Params Nat Nat F := { p with
    userBias := (d.move p r).userBias
    itemBias := (d.move p r).itemBias }
  have userFactors : moveUser learningRate (d.error p r) reg.userFactors user (wide e.1) (m.withParams biased) =
      .ok (m.withParams { biased with userFactors := (d.move p r).userFactors }) :=
    moveUser_withParams formed bound bound' fun _ => rfl
  have itemFactors : moveItem learningRate (d.error p r) reg.itemFactors user (wide e.1)
      (m.withParams { biased with userFactors := (d.move p r).userFactors }) = .ok (m.withParams (d.move p r)) :=
    moveItem_withParams formed bound bound' fun k => by
      -- the user's factors have moved already
      have moved := congrFun (d.move_userFactors_self p r) k
      dsimp only [r] at moved ⊢
      rw [moved]
      rfl
  rw [MFModel.rate, bind_of_ok pred]
  refine (if_neg inside).trans ?_
  refine (bind_of_ok own _).trans ?_
  refine (bind_of_ok userBias _).trans ?_
  refine (bind_of_ok own' _).trans ?_
  refine (bind_of_ok itemBias _).trans ?_
  exact (bind_of_ok userFactors _).trans itemFactors

theorem sgdUpdateDataset_withParams (reg : Regularization F) (learningRate : F) (formed : m.WellFormed)
    {baseUser : UInt64} {ds : SparseDataset F} (users : baseUser.toNat + ds.data.length ≤ m.nusers.toNat)
    (small : baseUser.toNat + ds.data.length ≤ 2 ^ 32)
    (items : ∀ row ∈ ds.data, ∀ e ∈ row, cell e.1 < m.nitems.toNat) :
    sgdUpdateDataset reg (m.withParams p) learningRate baseUser ds =
      .ok (m.withParams ((m.descent reg learningRate).descend p (ratings baseUser.toNat ds))) := by
  obtain ⟨s, done, rfl⟩ := foldlM_gives (l := ds.data.zipIdx) (s := m.withParams p)
    (f := fun m sample =>
      sample.1.foldlM (MFModel.rate reg learningRate (baseUser + UInt64.ofNat sample.2)) m)
    (P := fun seen s => s = m.withParams
      ((m.descent reg learningRate).descend p (seen.flatMap (rowRatings baseUser.toNat))))
    (by
      intro seen sample before s state
      subst state
      obtain ⟨row, j⟩ := sample
      obtain ⟨here, found⟩ := getElem?_of_prefix_zipIdx before
      dsimp only at here found
      obtain ⟨bound, _⟩ := List.getElem?_eq_some_iff.mp found
      have user : (baseUser + UInt64.ofNat j).toNat = baseUser.toNat + j := by
        rw [UInt64.toNat_add, UInt64.toNat_ofNat_of_lt' (by rw [UInt64.size]; omega)]
        omega
      obtain ⟨s, done, rfl⟩ := foldlM_gives (l := row)
        (s := m.withParams
          ((m.descent reg learningRate).descend p (seen.flatMap (rowRatings baseUser.toNat))))
        (f := MFModel.rate reg learningRate (baseUser + UInt64.ofNat j))
        (P := fun part s => s = m.withParams ((m.descent reg learningRate).descend p
          (seen.flatMap (rowRatings baseUser.toNat) ++ rowRatings baseUser.toNat (part, j))))
        (by
          intro part e before s state
          subst state
          refine ⟨_, rate_withParams formed (by omega) (by omega)
            (items row (List.mem_of_getElem? found) e (mem_of_here before)), ?_⟩
          rw [rowRatings, rowRatings, List.map_append, List.map_singleton, ← List.append_assoc,
            (m.descent reg learningRate).descend_concat, user])
        (by rw [rowRatings, List.map_nil, List.append_nil])
      refine ⟨_, done, ?_⟩
      rw [List.flatMap_append, List.flatMap_singleton])
    rfl
  exact done

end Local

end MFModel
end MF

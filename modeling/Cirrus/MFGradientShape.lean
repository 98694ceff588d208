import Cirrus.MFGradientCodec
import Cirrus.MFSparseCodec
import Mathlib.Data.Fintype.Card

/-!
The shape of the gradient of a minibatch of ratings. Its users are pushed row by
row, its items are listed when their scratch vector is first needed, and the
biases are keys of maps; each of them comes out once.
-/
namespace MF
open Gradients SparseLR Factorization Loops Decoder
variable {B F : Type}

/-- The `int`s that the user ids `base`, ..., `base + n - 1` convert to. -/
def userIds (base n : Nat) : List Int32 := (List.range n).map fun i => toInt (base + i)

/-- The gradient has these users and the rated items, each once wherever it is kept. -/
structure HasShape (users : List Int32) (rated : Int32 → Prop) (g : MFSparseGradient F) : Prop where
  distinct : users.Nodup
  usersBias : g.usersBiasGrad.keys.Perm users
  usersWeights : g.usersWeightsGrad.map (·.1) = users
  once : (g.itemsWeightsGrad.map (·.1)).Nodup
  itemsBias : g.itemsBiasGrad.keys.Perm (g.itemsWeightsGrad.map (·.1))
  itemsWeights : ∀ k, k ∈ g.itemsWeightsGrad.map (·.1) ↔ rated k
  factors : ∀ e ∈ g.usersWeightsGrad ++ g.itemsWeightsGrad, e.2.length = numFactors

def Rated (ds : SparseDataset F) (k : Int32) : Prop := ∃ row ∈ ds.data, ∃ e ∈ row, e.1 = k

/-- No assertion on the gradient's way fails: the worker serializes it, the server loads it and applies it. -/
def AssertionsHold [Add F] (w : Wire B F) (g : MFSparseGradient F) : Prop :=
  ∃ bytes loaded, g.serialize w = .ok bytes ∧ Decodes (MFSparseGradient.loadSerialized w {}) bytes loaded ∧
    ∀ (m : MFModel F) text, m.sgdUpdate loaded ≠ .error (.assertion text)

section Ids

theorem toInt_eq_iff {a b : Nat} : toInt a = toInt b ↔ a % 2 ^ 32 = b % 2 ^ 32 := by
  have words : bits (toInt a) = bits (toInt b) ↔ UInt32.ofNat a = UInt32.ofNat b := Iff.rfl
  rw [← bits.injective.eq_iff, words, UInt32.ofNat_eq_iff_mod_eq_toNat, UInt32.toNat_ofNat']

theorem toInt_add (base : UInt64) (i : Nat) : toInt (base + UInt64.ofNat i).toNat = toInt (base.toNat + i) := by
  rw [toInt_eq_iff, UInt64.toNat_add, UInt64.toNat_ofNat']
  omega

theorem userIds_nodup (base : Nat) {n : Nat} (few : n ≤ 2 ^ 32) : (userIds base n).Nodup := by
  apply List.Nodup.map_on _ List.nodup_range
  intro i below j below' same
  rw [List.mem_range] at below below'
  rw [toInt_eq_iff] at same
  omega

theorem userIds_succ (base n : Nat) : userIds base (n + 1) = userIds base n ++ [toInt (base + n)] := by
  rw [userIds, List.range_succ, List.map_append, List.map_singleton]
  rfl

theorem userIds_toInt {base n : Nat} (small : base + n ≤ 2 ^ 31) :
    (userIds base n).map Int32.toInt = (List.range n).map fun i => ((base + i : Nat) : Int) := by
  rw [userIds, List.map_map]
  apply List.map_congr_left
  intro i below
  rw [List.mem_range] at below
  exact LRSparseGradient.toInt_toInt (by omega)

theorem toInt_cell {id : Int32} (inside : cell id < itemSlots) : toInt (cell id) = id :=
  cell_injective (cell_toInt (Nat.lt_trans inside (by decide)))

end Ids

namespace SparseMFModel

structure Ready (users : Nat) (known : Fin itemSlots → Prop) (L : SparseMFModel F) : Prop where
  nfactors : L.nfactors.toNat = numFactors
  count : L.userModels.length = users
  users : ∀ user ∈ L.userModels, user.2.2.length = numFactors
  items : ∀ slot, known slot → (L.itemModels slot).2.length = numFactors

section Loaded
variable {w : Wire B F}

theorem loadModel_factors {memory rest : List B} {e : UInt32 × F × List F} (done : loadModel w memory = .ok (e, rest)) :
    e.2.2.length = numFactors := by
  obtain ⟨id, _, _, done⟩ := Decoder.ok_of_bind done
  obtain ⟨bias, _, _, done⟩ := Decoder.ok_of_bind done
  obtain ⟨weights, _, read, done⟩ := Decoder.ok_of_bind done
  cases done
  exact (rounds_ok (P := fun _ => True) (fun _ _ _ _ _ => trivial) read).1

theorem ready_of_load [Zero F] [OfScientific F] {nfactors : UInt64} {users items : Nat} {memory rest : List B} {L : SparseMFModel F}
    (done : loadSerialized w (ofSize nfactors) users items memory = .ok (L, rest)) :
    Ready users (fun slot => (L.itemModels slot).2 ≠ []) L := by
  obtain ⟨userModels, _, readUsers, done⟩ := Decoder.ok_of_bind done
  obtain ⟨itemModels, _, readItems, done⟩ := Decoder.ok_of_bind done
  obtain ⟨models, _, stored, done⟩ := Decoder.ok_of_bind done
  cases done
  obtain ⟨count, usersFull⟩ := rounds_ok (fun _ _ _ _ => loadModel_factors) readUsers
  obtain ⟨_, itemsFull⟩ := rounds_ok (fun _ _ _ _ => loadModel_factors) readItems
  have set : itemModels.foldlM setItem (ofSize nfactors : SparseMFModel F).itemModels = .ok models := by
    cases folded : itemModels.foldlM setItem (ofSize nfactors : SparseMFModel F).itemModels with
    | error fault =>
      rw [folded] at stored
      cases stored
    | ok now =>
      rw [folded] at stored
      cases stored
      rfl
  have vectors := foldlM_ends
    (P := fun _ (now : Fin itemSlots → F × List F) => ∀ slot, (now slot).2 = [] ∨ (now slot).2.length = numFactors)
    (by
      intro seen e here now next each one slot
      rw [setItem] at one
      split at one
      next inside =>
        cases one
        rcases decEq slot ⟨e.1.toNat, inside⟩ with apart | rfl
        · rw [Function.update_of_ne apart]
          exact each slot
        · rw [Function.update_self]
          exact .inr (itemsFull e (mem_of_here here))
      next => cases one)
    (fun _ => .inl rfl) set
  constructor
  · rfl
  · exact (List.length_map _).trans count
  · exact List.forall_mem_map.mpr usersFull
  · exact fun slot known => (vectors slot).resolve_left known

end Loaded

section Moves
variable [Zero F]

theorem eq_vec_self {n : Nat} {v : List F} (size : v.length = n) : v = vec n fun k => v.getD k 0 := by
  apply eq_vec size
  intro k below
  rw [List.getD_eq_getElem?_getD, List.getElem?_eq_getElem (by omega), Option.getD_some]

variable [Add F] [Sub F] [Mul F]

theorem moveUser_lengths (rate error reg : F) {n : Nat} {other grad own : List F} (othersFull : other.length = n) (gradFull : grad.length = n)
    (ownFull : own.length = n) :
    ∃ t, moveUser n rate error reg other (grad, own) = .ok t ∧ t.1.length = n ∧ t.2.length = n := by
  rw [eq_vec_self othersFull, eq_vec_self gradFull, eq_vec_self ownFull]
  exact ⟨_, moveUser_vec, vec_length, vec_length⟩

theorem moveItem_lengths (rate error reg : F) (slot : Fin itemSlots) {other : List F} {s : ItemMove F} {listed : Prop} [Decidable listed]
    (othersFull : other.length = numFactors) (ownFull : s.weights.length = numFactors)
    (gradFull : s.grad.length = if listed then numFactors else 0) :
    ∃ t, moveItem numFactors rate error reg other slot s = .ok t ∧ t.weights.length = numFactors ∧
      t.grad.length = numFactors ∧ t.listed = if listed then s.listed else s.listed ++ [slot] := by
  obtain ⟨grad, items, weights⟩ := s
  dsimp only at ownFull gradFull ⊢
  have collected : grad = gathered listed numFactors fun k => grad.getD k 0 := by
    unfold gathered
    split at gradFull
    next there =>
      rw [if_pos there]
      exact eq_vec_self gradFull
    next absent =>
      rw [if_neg absent]
      exact List.length_eq_zero_iff.mp gradFull
  have fresh : ¬listed → ∀ k, grad.getD k 0 = 0 := by
    intro absent k
    rw [if_neg absent] at gradFull
    rw [List.length_eq_zero_iff.mp gradFull]
    rfl
  rw [eq_vec_self othersFull, eq_vec_self ownFull, collected]
  exact ⟨_, moveItem_vec fresh, vec_length, vec_length, rfl⟩

end Moves

section Prediction
variable {users : Nat} {known : Fin itemSlots → Prop} {L : SparseMFModel F}

theorem userModel_ready (ready : Ready users known L) {j : Nat} (bound : j < users) :
    ∃ user, L.userModel j = .ok user ∧ user.2.2.length = numFactors := by
  have inside : j < L.userModels.length := ready.count ▸ bound
  refine ⟨L.userModels[j], ?_, ready.users _ (List.getElem_mem inside)⟩
  rw [userModel, List.getElem?_eq_getElem inside]

theorem predict_ready [Add F] [Mul F] (ready : Ready users known L) {j : Nat} (bound : j < users) (small : j < 2 ^ 32)
    {id : Int32} (inside : cell id < itemSlots) (there : known ⟨cell id, inside⟩) :
    ∃ pred, L.predict (UInt32.ofNat j) (wide id).toUInt32 = .ok pred := by
  obtain ⟨⟨userId, bias, own⟩, user, full⟩ := userModel_ready ready bound
  have itemFull := ready.items _ there
  rw [predict, UInt32.toNat_ofNat_of_lt' small, bind_of_ok user]
  simp only [bind_of_ok (itemSlot_narrow inside), ready.nfactors]
  obtain ⟨pred, done, _⟩ := foldlM_gives (l := List.range numFactors)
    (s := L.globalBias + bias + (L.itemModels ⟨cell id, inside⟩).1)
    (f := fun res i => do
      pure (res + (← at' own i) * (← at' (L.itemModels ⟨cell id, inside⟩).2 i)))
    (P := fun _ _ => True)
    (by
      intro seen k here res _
      obtain ⟨_, below⟩ := eq_length_of_prefix_range here
      have ownInside : k < own.length := lt_of_lt_of_eq below full.symm
      have itemInside : k < (L.itemModels ⟨cell id, inside⟩).2.length := lt_of_lt_of_eq below itemFull.symm
      have first := at'_of_lt ownInside
      have second := at'_of_lt itemInside
      refine ⟨res + own[k] * (L.itemModels ⟨cell id, inside⟩).2[k], ?_, trivial⟩
      exact (bind_of_ok first _).trans (bind_of_ok second _))
    trivial
  exact ⟨pred, done⟩

theorem Ready.set (ready : Ready users known L) {j : Nat} {user : Int32 × F × List F} {slot : Fin itemSlots}
    {item : F × List F} (userFull : user.2.2.length = numFactors) (itemFull : item.2.length = numFactors) :
    Ready users known { L with
      userModels := L.userModels.set j user
      itemModels := Function.update L.itemModels slot item } where
  nfactors := ready.nfactors
  count := List.length_set.trans ready.count
  users := by
    intro other member
    rcases List.mem_or_eq_of_mem_set member with before | rfl
    · exact ready.users other before
    · exact userFull
  items := by
    intro other there
    rcases decEq other slot with apart | rfl
    · dsimp only
      rw [Function.update_of_ne apart]
      exact ready.items other there
    · dsimp only
      rw [Function.update_self]
      exact itemFull

end Prediction

/-- What a call has collected: users that have begun have a bias gradient, finished ones also one of their factors,
and an item has both once it is rated. -/
structure Collecting (users : Nat) (known : Fin itemSlots → Prop) (base begun finished : Nat) (rated : Int32 → Prop)
    (s : Minibatch F) : Prop where
  ready : Ready users known s.model
  usersBias : ∀ k, k ∈ s.gradient.usersBiasGrad ↔ k ∈ userIds base begun
  usersWeights : s.gradient.usersWeightsGrad.map (·.1) = userIds base finished
  usersFull : ∀ e ∈ s.gradient.usersWeightsGrad, e.2.length = numFactors
  itemsBias : ∀ k, k ∈ s.gradient.itemsBiasGrad ↔ rated k
  listed : ∀ slot, slot ∈ s.itemWeightsLst ↔ rated (toInt slot)
  inside : ∀ k, rated k → cell k < itemSlots
  once : s.itemWeightsLst.Nodup
  itemsFull : ∀ slot, (s.itemWeightsGradMap slot).length = if slot ∈ s.itemWeightsLst then numFactors else 0

section Collect
variable [Zero F] [Add F] [Sub F] [Mul F] {users base j : Nat} {known : Fin itemSlots → Prop}
  {rated : Int32 → Prop} {s : Minibatch F} {learningRate : F}

theorem rate_collecting (now : Collecting users known base (j + 1) j rated s) (current : s.userWeightsGrad.length = numFactors)
    (bound : j < users) (small : j < 2 ^ 32) {user : UInt64} (here : toInt user.toNat = toInt (base + j))
    {e : Int32 × F} (inside : cell e.1 < itemSlots) (there : known ⟨cell e.1, inside⟩) :
    ∃ s', rate learningRate user j s e = .ok s' ∧ s'.userWeightsGrad.length = numFactors ∧
      Collecting users known base (j + 1) j (fun k => rated k ∨ k = e.1) s' := by
  obtain ⟨pred, predicted⟩ := predict_ready now.ready bound small inside there
  obtain ⟨⟨userId, bias, own⟩, user', ownFull⟩ := userModel_ready now.ready bound
  have slotId : toInt (wide e.1).toNat = e.1 := toInt_cell inside
  have factors := now.ready.nfactors
  have itemFull := now.ready.items _ there
  obtain ⟨moved, userMoved, gradFull, movedFull⟩ := moveUser_lengths learningRate (e.2 - pred)
    s.model.userFactReg itemFull current ownFull
  obtain ⟨item, itemMoved, weightsFull, itemGradFull, lists⟩ := moveItem_lengths learningRate
    (e.2 - pred) s.model.itemFactReg ⟨cell e.1, inside⟩
    (s := ⟨s.itemWeightsGradMap ⟨cell e.1, inside⟩, s.itemWeightsLst, (s.model.itemModels ⟨cell e.1, inside⟩).2⟩)
    movedFull itemFull (now.itemsFull ⟨cell e.1, inside⟩)
  have listed' : ∀ slot : Fin itemSlots, slot ∈ item.listed ↔ slot ∈ s.itemWeightsLst ∨ toInt slot = e.1 := by
    intro slot
    have named : toInt slot = e.1 ↔ slot = ⟨cell e.1, inside⟩ := by
      constructor
      · intro same
        by_contra apart
        exact slot_toInt_ne apart (same.trans (toInt_cell inside).symm)
      · rintro rfl
        exact toInt_cell inside
    rw [lists, named]
    split
    next member => exact ⟨.inl, fun either => either.elim id fun same => same ▸ member⟩
    next => rw [List.mem_append, List.mem_singleton]
  let s' : Minibatch F :=
    { model := { s.model with
        userModels := s.model.userModels.set j
          (userId, bias + biasDelta learningRate (e.2 - pred) s.model.userBiasReg bias, moved.2)
        itemModels := Function.update s.model.itemModels ⟨cell e.1, inside⟩
          ((s.model.itemModels ⟨cell e.1, inside⟩).1 + biasDelta learningRate (e.2 - pred) s.model.itemBiasReg
            (s.model.itemModels ⟨cell e.1, inside⟩).1, item.weights) }
      gradient := { s.gradient with
        usersBiasGrad := addToMap s.gradient.usersBiasGrad (toInt (base + j))
          (biasDelta learningRate (e.2 - pred) s.model.userBiasReg bias)
        itemsBiasGrad := addToMap s.gradient.itemsBiasGrad e.1 (biasDelta learningRate (e.2 - pred)
          s.model.itemBiasReg (s.model.itemModels ⟨cell e.1, inside⟩).1) }
      userWeightsGrad := moved.1
      itemWeightsGradMap := Function.update s.itemWeightsGradMap ⟨cell e.1, inside⟩ item.grad
      itemWeightsLst := item.listed }
  refine ⟨s', ?_, gradFull, ?_⟩
  · simp only [rate, bind_of_ok predicted, bind_of_ok user', bind_of_ok (itemSlot_wide inside)]
    rw [here, slotId, factors]
    refine (bind_of_ok userMoved _).trans ?_
    exact (bind_of_ok itemMoved _).trans rfl
  · constructor
    · exact now.ready.set movedFull weightsFull
    · intro k
      rw [mem_addToMap, now.usersBias, userIds_succ, List.mem_append, List.mem_singleton]
      tauto
    · exact now.usersWeights
    · exact now.usersFull
    · intro k
      rw [mem_addToMap, now.itemsBias, or_comm]
    · intro slot
      rw [listed', now.listed]
    · rintro k (before | rfl)
      · exact now.inside k before
      · exact inside
    · dsimp only [s']
      rw [lists]
      split
      next => exact now.once
      next absent =>
        rw [List.nodup_append]
        refine ⟨now.once, List.nodup_singleton _, ?_⟩
        rintro other member single here rfl
        exact absent (List.mem_singleton.mp here ▸ member)
    · intro slot
      dsimp only [s']
      rcases decEq slot ⟨cell e.1, inside⟩ with apart | rfl
      · have other : toInt slot ≠ e.1 := toInt_cell inside ▸ slot_toInt_ne apart
        rw [Function.update_of_ne apart, now.itemsFull]
        simp only [listed', other, or_false]
      · rw [Function.update_self, itemGradFull, if_pos ((listed' _).mpr (.inr (toInt_cell inside)))]

theorem rateUser_collecting (now : Collecting users known base j j rated s) (bound : j < users) (small : j < 2 ^ 32)
    {baseUser : UInt64} (here : toInt (baseUser + UInt64.ofNat j).toNat = toInt (base + j)) {row : List (Int32 × F)}
    (inside : ∀ e ∈ row, ∃ inside : cell e.1 < itemSlots, known ⟨cell e.1, inside⟩) :
    ∃ s', rateUser learningRate baseUser s (row, j) = .ok s' ∧
      Collecting users known base (j + 1) (j + 1) (fun k => rated k ∨ k ∈ row.map (·.1)) s' := by
  have begun : Collecting users known base (j + 1) j rated { s with
      gradient := { s.gradient with usersBiasGrad := s.gradient.usersBiasGrad.insert (toInt (base + j)) 0 }
      userWeightsGrad := List.replicate numFactors 0 } := by
    constructor
    · exact now.ready
    · intro k
      rw [AList.mem_insert, now.usersBias, userIds_succ, List.mem_append, List.mem_singleton, or_comm]
    · exact now.usersWeights
    · exact now.usersFull
    · exact now.itemsBias
    · exact now.listed
    · exact now.inside
    · exact now.once
    · exact now.itemsFull
  obtain ⟨s', done, full, collecting⟩ := foldlM_gives (f := rate learningRate (baseUser + UInt64.ofNat j) j)
    (P := fun seen (s : Minibatch F) => s.userWeightsGrad.length = numFactors ∧
      Collecting users known base (j + 1) j (fun k => rated k ∨ k ∈ seen.map (·.1)) s)
    (fun seen e before s ⟨current, collecting⟩ => by
      obtain ⟨slot, there⟩ := inside e (mem_of_here before)
      obtain ⟨s', one, full, next⟩ := rate_collecting collecting current bound small here slot there
      refine ⟨s', one, full, ?_⟩
      simp only [List.map_append, List.map_singleton, List.mem_append, List.mem_singleton, ← or_assoc]
      exact next)
    ⟨List.length_replicate, by simpa using begun⟩
  let finished : Minibatch F := { s' with gradient := { s'.gradient with
    usersWeightsGrad := s'.gradient.usersWeightsGrad ++ [(toInt (base + j), s'.userWeightsGrad)] } }
  refine ⟨finished, ?_, ?_⟩
  · simp only [rateUser, here]
    exact bind_of_ok done _
  · constructor
    · exact collecting.ready
    · exact collecting.usersBias
    · dsimp only [finished]
      rw [List.map_append, collecting.usersWeights, userIds_succ, List.map_singleton]
    · intro e member
      rcases List.mem_append.mp member with before | last
      · exact collecting.usersFull e before
      · rw [List.mem_singleton.mp last]
        exact full
    · exact collecting.itemsBias
    · exact collecting.listed
    · exact collecting.inside
    · exact collecting.once
    · exact collecting.itemsFull

theorem minibatchGrad_collecting {L : SparseMFModel F} (ready : Ready users known L) {ds : SparseDataset F}
    (config : Configuration F) (baseUser : UInt64) (few : ds.data.length ≤ users) (small : ds.data.length < 2 ^ 32)
    (inside : ∀ row ∈ ds.data, ∀ e ∈ row, ∃ inside : cell e.1 < itemSlots, known ⟨cell e.1, inside⟩) :
    ∃ s, minibatchGrad L ds config baseUser = .ok (s.model, { s.gradient with
        itemsWeightsGrad := s.itemWeightsLst.map fun slot => (toInt slot.val, s.itemWeightsGradMap slot) }) ∧
      Collecting users known baseUser.toNat ds.data.length ds.data.length (Rated ds) s := by
  obtain ⟨s, done, collecting⟩ := foldlM_gives (l := ds.data.zipIdx)
    (f := rateUser config.learningRate baseUser) (s := { model := L })
    (P := fun seen s => Collecting users known baseUser.toNat seen.length seen.length
      (fun k => ∃ sample ∈ seen, k ∈ sample.1.map (·.1)) s)
    (fun seen sample before s now => by
      obtain ⟨row, j⟩ := sample
      obtain ⟨here, found⟩ := getElem?_of_prefix_zipIdx before
      dsimp only at here found
      subst here
      obtain ⟨bound, _⟩ := List.getElem?_eq_some_iff.mp found
      obtain ⟨s', one, next⟩ := rateUser_collecting now (by omega) (by omega) (toInt_add baseUser _)
        (inside row (List.mem_of_getElem? found))
      refine ⟨s', one, ?_⟩
      rw [List.length_append, List.length_singleton]
      simp only [List.mem_append, List.mem_singleton, or_and_right, exists_or, exists_eq_left]
      exact next)
    (by
      constructor
      · exact ready
      · exact fun k => ⟨nofun, nofun⟩
      · rfl
      · nofun
      · exact fun k => ⟨nofun, nofun⟩
      · exact fun k => ⟨nofun, nofun⟩
      · nofun
      · exact .nil
      · exact fun slot => rfl)
  refine ⟨s, ?_, ?_⟩
  · rw [minibatchGrad, bind_of_ok done]
    rfl
  · have rows : (fun k => ∃ sample ∈ ds.data.zipIdx, k ∈ sample.1.map (·.1)) = Rated ds := by
      funext k
      rw [Rated]
      conv_rhs => rw [← List.zipIdx_map_fst 0 ds.data]
      simp only [List.mem_map, exists_exists_and_eq_and]
    rw [List.length_zipIdx, rows] at collecting
    exact collecting

end Collect

theorem Collecting.shape [Zero F] {users base n : Nat} {known : Fin itemSlots → Prop} {rated : Int32 → Prop} {s : Minibatch F}
    (now : Collecting users known base n n rated s) (few : n ≤ 2 ^ 32) :
    HasShape (userIds base n) rated { s.gradient with
      itemsWeightsGrad := s.itemWeightsLst.map fun slot => (toInt slot.val, s.itemWeightsGradMap slot) } := by
  have ids : (s.itemWeightsLst.map fun slot => (toInt slot.val, s.itemWeightsGradMap slot)).map (·.1) =
      s.itemWeightsLst.map fun slot => toInt slot.val := by
    rw [List.map_map]
    rfl
  have once : (s.itemWeightsLst.map fun slot => toInt slot.val).Nodup := by
    apply now.once.map
    intro slot slot' same
    by_contra apart
    exact slot_toInt_ne apart same
  have items : ∀ k, k ∈ (s.itemWeightsLst.map fun slot => toInt slot.val) ↔ rated k := by
    intro k
    rw [List.mem_map]
    constructor
    · rintro ⟨slot, member, rfl⟩
      exact (now.listed slot).mp member
    · intro there
      have same := toInt_cell (now.inside k there)
      refine ⟨⟨cell k, now.inside k there⟩, (now.listed _).mpr ?_, same⟩
      rw [same]
      exact there
  constructor
  · exact userIds_nodup base few
  · rw [List.perm_ext_iff_of_nodup s.gradient.usersBiasGrad.keys_nodup (userIds_nodup base few)]
    exact now.usersBias
  · exact now.usersWeights
  · exact ids ▸ once
  · dsimp only
    rw [ids, List.perm_ext_iff_of_nodup s.gradient.itemsBiasGrad.keys_nodup once]
    exact fun k => (now.itemsBias k).trans (items k).symm
  · exact fun k => ids ▸ items k
  · intro e member
    rcases List.mem_append.mp member with user | item
    · exact now.usersFull e user
    · obtain ⟨slot, listed, rfl⟩ := List.mem_map.mp item
      rw [now.itemsFull, if_pos listed]

end SparseMFModel

theorem HasShape.shaped {users : List Int32} {rated : Int32 → Prop} {g : MFSparseGradient F} (shape : HasShape users rated g) :
    MFSparseGradient.Shaped g where
  users := by
    have pairs := congrArg List.length shape.usersWeights
    have keys := shape.usersBias.length_eq
    rw [List.length_map] at pairs
    rw [AList.keys, List.keys, List.length_map] at keys
    omega
  items := by
    have keys := shape.itemsBias.length_eq
    rw [AList.keys, List.keys, List.length_map, List.length_map] at keys
    exact keys.symm
  factors := shape.factors

theorem MFModel.sgdUpdate_never [Add F] {g : MFSparseGradient F}
    (factors : ∀ e ∈ g.usersWeightsGrad ++ g.itemsWeightsGrad, e.2.length = numFactors) (m : MFModel F) (text : String) :
    m.sgdUpdate g ≠ .error (.assertion text) := by
  have undefined : ∀ {A : Type}, (.error .undefined : Except Fault A) ≠ .error (.assertion text) := by
    intro A same
    cases same
  have bias : ∀ (v : List F) l, addBiases v l ≠ .error (.assertion text) := by
    intro v l
    apply foldlM_never
    intro e _ v
    refine bind_never ?_ fun x => ?_
    · rw [at']
      split
      · exact ok_never
      · exact undefined
    · rw [setAt]
      split
      · exact ok_never
      · exact undefined
  have weights : ∀ l ⊆ g.usersWeightsGrad ++ g.itemsWeightsGrad, ∀ v : List F,
      l.foldlM (addVector m.nfactors) v ≠ .error (.assertion text) := by
    intro l part
    apply foldlM_never
    intro e member v
    rw [addVector, if_neg (not_not.mpr (factors e (part member)))]
    apply foldlM_never
    intro x _ v
    refine bind_never ?_ fun y => ok_never
    rw [checkedAt]
    split
    · exact ok_never
    · intro same
      cases same
  refine bind_never (bias _ _) fun _ => bind_never (bias _ _) fun _ => ?_
  refine bind_never (weights _ (List.subset_append_left _ _) _) fun _ => ?_
  exact bind_never (weights _ (List.subset_append_right _ _) _) fun _ => ok_never

theorem HasShape.assertionsHold [Add F] (w : Wire B F) {users : List Int32} {rated : Int32 → Prop} {g : MFSparseGradient F}
    (shape : HasShape users rated g) (fewUsers : users.length < 2 ^ 32) (fewItems : g.itemsWeightsGrad.length < 2 ^ 32) :
    AssertionsHold w g := by
  have counted : g.usersBiasGrad.entries.length = users.length := by
    have keys := shape.usersBias.length_eq
    rwa [AList.keys, List.keys, List.length_map] at keys
  have loaded := MFSparseGradient.loadSerialized_layout w shape.shaped (counted ▸ fewUsers) (shape.shaped.items ▸ fewItems)
  exact ⟨_, _, MFSparseGradient.serialize_shaped w shape.shaped, loaded, MFModel.sgdUpdate_never shape.factors⟩

namespace SparseMFModel
variable [Zero F] [Add F] [Sub F] [Mul F] [OfScientific F]

/-- Users are collected row by row and items when they are first rated; there are as many biases as vectors of both. -/
theorem minibatchGrad_shape (w : Wire B F) {nfactors : UInt64} {users items : Nat} {memory rest : List B}
    {L : SparseMFModel F} (loaded : loadSerialized w (ofSize nfactors) users items memory = .ok (L, rest))
    (ds : SparseDataset F) (config : Configuration F) (baseUser : UInt64) (few : ds.data.length ≤ L.userModels.length)
    (small : ds.data.length < 2 ^ 32)
    (present : ∀ row ∈ ds.data, ∀ e ∈ row, ∃ inside : cell e.1 < itemSlots, (L.itemModels ⟨cell e.1, inside⟩).2 ≠ []) :
    ∃ L' g, minibatchGrad L ds config baseUser = .ok (L', g) ∧
      HasShape (userIds baseUser.toNat ds.data.length) (Rated ds) g ∧ AssertionsHold w g ∧
      (baseUser.toNat + ds.data.length ≤ 2 ^ 31 → (userIds baseUser.toNat ds.data.length).map Int32.toInt =
        (List.range ds.data.length).map fun i => ((baseUser.toNat + i : Nat) : Int)) := by
  have ready := ready_of_load loaded
  rw [ready.count] at few
  obtain ⟨s, done, collecting⟩ := minibatchGrad_collecting ready config baseUser few small present
  have shape := collecting.shape (Nat.le_of_lt small)
  have items : s.itemWeightsLst.length ≤ itemSlots := by
    have bound := collecting.once.length_le_card
    rwa [Fintype.card_fin] at bound
  refine ⟨_, _, done, shape, shape.assertionsHold w ?_ ?_, userIds_toInt⟩
  · rwa [userIds, List.length_map, List.length_range]
  · rw [List.length_map]
    exact Nat.lt_of_le_of_lt items (by decide)

section Runs

def secondUser : SparseMFModel ℚ := partOf twoUsers 1 1 [0]

theorem secondUser_loads : ∃ memory, loadSerialized Exact.wire (ofSize 0) 1 1 memory = .ok (secondUser, []) := by
  have decodes : Decodes (loadSerialized Exact.wire (ofSize 0) (1 : UInt32).toNat [(0 : UInt32)].length) _
      (partOf twoUsers 1 1 [0]) :=
    partOf_decodes twoUsers [0] (by decide) (List.forall_mem_singleton.mpr (by decide))
  exact ⟨_, decodes []⟩

def settings : Configuration ℚ where
  learningRate := 1 / 100
  minibatchSize := 1
  epsilon := 0
  gradThreshold := 0

theorem minibatchGrad_shape_twice : ∃ L' g,
    minibatchGrad secondUser ⟨[[(0, 5), (0, 3)]], [0]⟩ settings 1 = .ok (L', g) ∧
      HasShape (userIds 1 1) (Rated (⟨[[(0, 5), (0, 3)]], [0]⟩ : SparseDataset ℚ)) g ∧ AssertionsHold Exact.wire g ∧
      (1 + 1 ≤ 2 ^ 31 → (userIds 1 1).map Int32.toInt = (List.range 1).map fun i => ((1 + i : Nat) : Int)) := by
  obtain ⟨memory, loaded⟩ := secondUser_loads
  have present : ∀ e ∈ [((0 : Int32), (5 : ℚ)), (0, 3)],
      ∃ inside : cell e.1 < itemSlots, (secondUser.itemModels ⟨cell e.1, inside⟩).2 ≠ [] :=
    List.forall_mem_cons.mpr ⟨⟨by decide, by decide⟩, List.forall_mem_singleton.mpr ⟨by decide, by decide⟩⟩
  exact minibatchGrad_shape Exact.wire loaded ⟨[[(0, 5), (0, 3)]], [0]⟩ settings 1 (by decide) (by decide)
    (List.forall_mem_singleton.mpr present)

/-- A user's id past the end of `int` is another number in the gradient. -/
theorem last_user_wraps : ¬ ∀ (memory : List ℚ) (L : SparseMFModel ℚ) (ds : SparseDataset ℚ) (baseUser : UInt64),
    loadSerialized Exact.wire (ofSize 0) 1 1 memory = .ok (L, []) → ds.data.length ≤ L.userModels.length →
    (∀ row ∈ ds.data, ∀ e ∈ row, ∃ inside : cell e.1 < itemSlots, (L.itemModels ⟨cell e.1, inside⟩).2 ≠ []) →
    ∃ L' g users, minibatchGrad L ds settings baseUser = .ok (L', g) ∧ HasShape users (Rated ds) g ∧
      users.map Int32.toInt = (List.range ds.data.length).map fun i => ((baseUser.toNat + i : Nat) : Int) := by
  intro always
  obtain ⟨memory, loaded⟩ := secondUser_loads
  obtain ⟨_, _, users, done, shape, ids⟩ := always memory secondUser ⟨[[]], [0]⟩ (2 ^ 31) loaded (by decide)
    (List.forall_mem_singleton.mpr nofun)
  obtain ⟨s, done', collecting⟩ := minibatchGrad_collecting (ready_of_load loaded) settings (2 ^ 31)
    (show (⟨[[]], [0]⟩ : SparseDataset ℚ).data.length ≤ 1 by decide) (by decide) (List.forall_mem_singleton.mpr nofun)
  cases done.symm.trans done'
  have same : users = userIds (2 ^ 31) 1 := shape.usersWeights.symm.trans collecting.usersWeights
  rw [same] at ids
  exact absurd ids (by decide)

end Runs
end SparseMFModel
end MF

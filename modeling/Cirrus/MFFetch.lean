import Cirrus.MFApply
import Cirrus.ServerInterface

/-!
How a worker gets its part of the model: it lists the items of the minibatch,
the server serializes its users and these items, and the worker loads them.
-/
namespace MF
open Gradients SparseLR Factorization Loops Decoder
variable {B F : Type}

theorem wide_narrow (id : Int32) : (wide id).toUInt32 = id.toUInt32 := by
  apply UInt32.toBitVec_inj.mp
  rw [wide, UInt64.toBitVec_toUInt32, Int64.toBitVec_toUInt64, Int32.toBitVec_toInt64, Int32.toBitVec_toUInt32]
  apply BitVec.eq_of_getLsbD_eq
  intro i inside
  rw [BitVec.getLsbD_setWidth, BitVec.getLsbD_signExtend]
  simp [inside, show i < 64 by omega]

theorem narrow_cell {id : Int32} (small : cell id < 2 ^ 32) : id.toUInt32.toNat = cell id := by
  rw [← wide_narrow, UInt64.toNat_toUInt32]
  exact Nat.mod_eq_of_lt small

theorem cell_of_narrow {id : Int32} (inside : id.toUInt32.toNat < itemSlots) : cell id < itemSlots := by
  rcases Int.lt_or_le id.toInt 0 with negative | natural
  · have value : id.toInt = (id.toUInt32.toNat : Int).bmod (2 ^ 32) := BitVec.toInt_eq_toNat_bmod _
    have bound : itemSlots = 17770 := rfl
    rw [Int.bmod] at value
    split at value <;> omega
  · have small := Int32.toInt_lt id
    have bound : cell id < 2 ^ 32 := by
      rw [cell_of_natural natural]
      omega
    rwa [← narrow_cell bound]

section Listing
open ServerInterface

theorem itemIds_gives {ds : SparseDataset F} (inside : ∀ row ∈ ds.data, ∀ e ∈ row, cell e.1 < itemSlots) :
    ∃ ids, itemIds ds = .ok ids ∧ ids.Nodup ∧ (∀ id, id ∈ ids ↔ ∃ row ∈ ds.data, ∃ e ∈ row, id = e.1.toUInt32) ∧
      ∀ id ∈ ids, id.toNat < itemSlots := by
  have each : ∀ movieId ∈ features ds, movieId.toNat < itemSlots := by
    intro movieId member
    obtain ⟨row, listed, e, there, rfl⟩ := mem_features.mp member
    have slot := inside row listed e there
    rwa [narrow_cell (Nat.lt_trans slot (by decide))]
  obtain ⟨ids, done, distinct, members, small⟩ := foldlM_gives (f := listItem) (l := features ds)
    (P := fun seen ids => ids.Nodup ∧ (∀ id, id ∈ ids ↔ id ∈ seen) ∧ ∀ id ∈ ids, id.toNat < itemSlots)
    (by
      intro seen movieId before ids ⟨distinct, members, small⟩
      have slot := each movieId (mem_of_here before)
      refine ⟨_, if_pos slot, ?_⟩
      split
      next there =>
        refine ⟨distinct, ?_, small⟩
        intro id
        rw [members, List.mem_append, List.mem_singleton]
        have known := (members movieId).mp there
        constructor
        · exact .inl
        · intro either
          rcases either with before | rfl
          · exact before
          · exact known
      next absent =>
        refine ⟨?_, ?_, ?_⟩
        · rw [List.nodup_append]
          refine ⟨distinct, List.nodup_singleton _, ?_⟩
          intro a member b single same
          exact absent (List.mem_singleton.mp single ▸ same ▸ member)
        · intro id
          rw [List.mem_append, List.mem_append, members]
        · intro id member
          rcases List.mem_append.mp member with before | here
          · exact small id before
          · rw [List.mem_singleton.mp here]
            exact slot)
    (s := ([] : List UInt32)) ⟨.nil, fun _ => Iff.rfl, nofun⟩
  refine ⟨ids, done, distinct, ?_, small⟩
  intro id
  rw [members, mem_features]

theorem slots_length {ids : List UInt32} (distinct : ids.Nodup) (inside : ∀ id ∈ ids, id.toNat < itemSlots) :
    ids.length ≤ itemSlots := by
  have slots : (ids.map UInt32.toNat).length ≤ (List.range itemSlots).length := by
    apply List.Subperm.length_le
    apply List.Nodup.subperm (distinct.map fun _ _ => UInt32.toNat_inj.mp)
    intro n member
    obtain ⟨id, there, rfl⟩ := List.mem_map.mp member
    exact List.mem_range.mpr (inside id there)
  rwa [List.length_map, List.length_range] at slots

theorem inside_of_itemIds {ds : SparseDataset F} {ids : List UInt32} (done : itemIds ds = .ok ids) :
    ∀ row ∈ ds.data, ∀ e ∈ row, cell e.1 < itemSlots := by
  have each := foldlM_ends (P := fun seen _ => ∀ movieId ∈ seen, movieId.toNat < itemSlots)
    (by
      intro seen movieId before ids ids' small one movieId' member
      rw [listItem] at one
      split at one
      next slot =>
        rcases List.mem_append.mp member with earlier | here
        · exact small movieId' earlier
        · rw [List.mem_singleton.mp here]
          exact slot
      next => cases one)
    nofun done
  intro row listed e there
  apply cell_of_narrow
  exact each _ (mem_features.mpr ⟨row, listed, e, there, rfl⟩)

end Listing

namespace SparseMFModel

def userEntry (p : Params Nat Nat F) (id : UInt32) : UInt32 × F × List F :=
  (id, p.userBias id.toNat, vec numFactors (p.userFactors id.toNat))

def itemEntry (p : Params Nat Nat F) (id : UInt32) : UInt32 × F × List F :=
  (id, p.itemBias id.toNat, vec numFactors (p.itemFactors id.toNat))

section Sending
variable {m : MFModel F} {p : Params Nat Nat F}

theorem denseUser_withParams (formed : m.WellFormed) {id : UInt32} (bound : id.toNat < m.nusers.toNat) :
    denseUser (m.withParams p) id = .ok (userEntry p id) := by
  have same : id.toUInt64.toNat = id.toNat := UInt32.toNat_toUInt64 id
  have bias : (m.withParams p).getUserBias id.toUInt64 = .ok (p.userBias id.toNat) := by
    rw [MFModel.getUserBias, MFModel.withParams, MFModel.checkedAt]
    dsimp only
    rw [vec_length, same, if_neg (Nat.not_le.mpr bound), vec_getElem? bound]
  have weights : ((List.range numFactors).mapM fun j =>
      (m.withParams p).getUserWeights id.toUInt64 (UInt64.ofNat j)) =
      .ok (vec numFactors (p.userFactors id.toNat)) := by
    apply mapM_pure
    intro k member
    rw [MFModel.getUserWeights_withParams formed (by rwa [same]) (List.mem_range.mp member), same]
  rw [denseUser, bind_of_ok bias, bind_of_ok weights]
  rfl

theorem denseItem_withParams (formed : m.WellFormed) {id : UInt32} (bound : id.toNat < m.nitems.toNat) :
    denseItem (m.withParams p) id = .ok (itemEntry p id) := by
  have same : id.toUInt64.toNat = id.toNat := UInt32.toNat_toUInt64 id
  have bias : (m.withParams p).getItemBias id.toUInt64 = .ok (p.itemBias id.toNat) := by
    rw [MFModel.getItemBias, MFModel.withParams, MFModel.checkedAt]
    dsimp only
    rw [vec_length, same, if_neg (Nat.not_le.mpr bound), vec_getElem? bound]
  have weights : ((List.range numFactors).mapM fun j =>
      (m.withParams p).getItemWeights id.toUInt64 (UInt64.ofNat j)) =
      .ok (vec numFactors (p.itemFactors id.toNat)) := by
    apply mapM_pure
    intro k member
    rw [MFModel.getItemWeights_withParams formed (by rwa [same]) (List.mem_range.mp member), same]
  rw [denseItem, bind_of_ok bias, bind_of_ok weights]
  rfl

end Sending

section Range
variable {base count : UInt32}

theorem userRange_length (small : base.toNat + count.toNat < 2 ^ 32) :
    (userRange base count).length = count.toNat := by
  rw [userRange, List.length_map, List.length_range, UInt32.toNat_add, Nat.mod_eq_of_lt small]
  omega

theorem userRange_getElem? (small : base.toNat + count.toNat < 2 ^ 32) {j : Nat} (below : j < count.toNat) :
    ∃ id, (userRange base count)[j]? = some id ∧ id.toNat = base.toNat + j := by
  refine ⟨base + UInt32.ofNat j, ?_, ?_⟩
  · rw [userRange, List.getElem?_map, UInt32.toNat_add, Nat.mod_eq_of_lt small,
      List.getElem?_range (by omega)]
    rfl
  · rw [UInt32.toNat_add, UInt32.toNat_ofNat_of_lt' (show j < UInt32.size from by rw [UInt32.size]; omega)]
    omega

theorem mem_userRange (small : base.toNat + count.toNat < 2 ^ 32) {id : UInt32}
    (member : id ∈ userRange base count) :
    base.toNat ≤ id.toNat ∧ id.toNat < base.toNat + count.toNat := by
  obtain ⟨j, inside, rfl⟩ := List.mem_iff_getElem.mp member
  rw [userRange_length small] at inside
  obtain ⟨id, found, value⟩ := userRange_getElem? small inside
  rw [(List.getElem?_eq_some_iff.mp found).2]
  omega

end Range

section Loading
variable (w : Wire B F) {m : MFModel F} {p : Params Nat Nat F}

theorem serializeFromDense_withParams (formed : m.WellFormed) {base count : UInt32}
    {ids : List UInt32} (users : base.toNat + count.toNat ≤ m.nusers.toNat)
    (small : base.toNat + count.toNat < 2 ^ 32) (few : ids.length < 2 ^ 32)
    (items : ∀ id ∈ ids, id.toNat < m.nitems.toNat) :
    serializeFromDense w (m.withParams p) base count (UInt32.ofNat ids.length) (ids.flatMap w.u32.put) =
      .ok (((userRange base count).map (userEntry p)).flatMap (putModel w) ++
        (ids.map (itemEntry p)).flatMap (putModel w)) := by
  have sentUsers : (userRange base count).mapM (denseUser (m.withParams p)) =
      .ok ((userRange base count).map (userEntry p)) := mapM_pure fun id member =>
    denseUser_withParams formed (by
      have := mem_userRange small member
      omega)
  have sentItems : ids.mapM (denseItem (m.withParams p)) = .ok (ids.map (itemEntry p)) :=
    mapM_pure fun id member => denseItem_withParams formed (items id member)
  have read : rounds (fun _ => w.u32.load) 0 ids.length (ids.flatMap w.u32.put ++ []) = .ok (ids, []) :=
    Decodes.rounds 0 ids (fun _ id _ _ => .load w.u32 id) []
  rw [List.append_nil] at read
  have length : (UInt32.ofNat ids.length).toNat = ids.length := UInt32.toNat_ofNat_of_lt' few
  rw [serializeFromDense, bind_of_ok sentUsers, length, bind_of_ok read]
  exact bind_of_ok sentItems _

theorem loadModel_putModel {e : UInt32 × F × List F} (full : e.2.2.length = numFactors) :
    Decodes (loadModel w) (putModel w e) e := by
  obtain ⟨id, bias, weights⟩ := e
  dsimp only at full
  rw [loadModel, ← full]
  apply Decodes.bind (.load w.u32 id)
  apply Decodes.bind (.load w.feature bias)
  exact Decodes.last (.rounds 0 weights fun _ x _ _ => .load w.feature x)

theorem foldlM_setItem (ids : List UInt32) (small : ∀ id ∈ ids, id.toNat < itemSlots) (start : Fin itemSlots → F × List F) :
    (ids.map (itemEntry p)).foldlM setItem start = .ok fun slot =>
      if slot.val ∈ ids.map UInt32.toNat then (p.itemBias slot, vec numFactors (p.itemFactors slot)) else start slot := by
  obtain ⟨items, done, values⟩ := foldlM_gives (f := setItem) (l := ids.map (itemEntry p)) (s := start)
    (P := fun seen items => ∀ slot : Fin itemSlots, items slot =
      if slot.val ∈ seen.map (·.1.toNat) then (p.itemBias slot, vec numFactors (p.itemFactors slot)) else start slot)
    (by
      intro seen e before items values
      obtain ⟨id, listed, rfl⟩ := List.mem_map.mp (mem_of_here before)
      have inside := small id listed
      have stored : setItem items (itemEntry p id) =
          .ok (Function.update items ⟨id.toNat, inside⟩ (itemEntry p id).2) := dif_pos inside
      refine ⟨_, stored, ?_⟩
      intro slot
      rw [List.map_append, List.map_singleton]
      rcases decEq slot ⟨id.toNat, inside⟩ with apart | rfl
      · have other : slot.val ≠ id.toNat := fun same => apart (Fin.ext same)
        rw [Function.update_of_ne apart, values]
        simp only [List.mem_append, List.mem_singleton, itemEntry, other, or_false]
      · have here : id.toNat ∈ seen.map (·.1.toNat) ++ [(itemEntry p id).1.toNat] :=
          List.mem_append_right _ (List.mem_singleton.mpr rfl)
        rw [Function.update_self]
        exact (if_pos here).symm)
    (fun slot => rfl)
  rw [done]
  refine congrArg Except.ok (funext ?_)
  intro slot
  have same : (ids.map (itemEntry p)).map (·.1.toNat) = ids.map UInt32.toNat := List.map_map
  rw [values, same]

theorem setItems [Zero F] (ids : List UInt32) (small : ∀ id ∈ ids, id.toNat < itemSlots) :
    ∃ items, (ids.map (itemEntry p)).foldlM setItem (fun _ => (0, [])) = .ok items ∧
      ∀ slot : Fin itemSlots, (∃ id ∈ ids, id.toNat = slot.val) →
        items slot = (p.itemBias slot, vec numFactors (p.itemFactors slot)) :=
  ⟨_, foldlM_setItem ids small _, fun _ listed => if_pos (List.mem_map.mpr listed)⟩

theorem loadSerialized_decodes [OfScientific F] (L : SparseMFModel F) {users items : List (UInt32 × F × List F)}
    (full : ∀ e ∈ users, e.2.2.length = numFactors) (full' : ∀ e ∈ items, e.2.2.length = numFactors)
    {itemModels : Fin itemSlots → F × List F} (set : items.foldlM setItem L.itemModels = .ok itemModels) :
    Decodes (loadSerialized w L users.length items.length)
      (users.flatMap (putModel w) ++ items.flatMap (putModel w))
      { L with
        nfactors := UInt64.ofNat numFactors
        userModels := L.userModels ++ users.map fun e => (e.1.toInt32, e.2)
        globalBias := 3.604
        itemModels := itemModels } := by
  apply Decodes.bind (.rounds 0 users fun _ e _ member => loadModel_putModel w (full e member))
  rw [← List.append_nil (items.flatMap (putModel w))]
  apply Decodes.bind (.rounds 0 items fun _ e _ member => loadModel_putModel w (full' e member))
  rw [set]
  exact .pure _

def initialReg [OfScientific F] : Regularization F where
  itemFactors := 0.05
  userFactors := 0.05
  userBias := 0.05
  itemBias := 0.05

def descent [OfScientific F] (learningRate : F) : Descent F where
  factors := numFactors
  globalBias := 3.604
  rate := learningRate
  reg := initialReg

variable [Zero F] [OfScientific F]

/-- The worker's part of the server's model: the users `base..base+count-1` and the items of the minibatch. -/
def fetch (m : MFModel F) (ds : SparseDataset F) (base count : UInt32) : Except Fault (SparseMFModel F) := do
  let ids ← ServerInterface.itemIds ds
  let data ← serializeFromDense w m base count (UInt32.ofNat ids.length) (ids.flatMap w.u32.put)
  let (model, _) ← loadSerialized w (ofSize 0) count.toNat ids.length data
  pure model

theorem fetch_part (formed : m.WellFormed) (ds : SparseDataset F) (base count : UInt32)
    (users : base.toNat + count.toNat ≤ m.nusers.toNat) (small : base.toNat + count.toNat < 2 ^ 32)
    (items : ∀ row ∈ ds.data, ∀ e ∈ row, cell e.1 < m.nitems.toNat ∧ cell e.1 < itemSlots)
    (learningRate : F) :
    ∃ L, fetch w (m.withParams p) ds base count = .ok L ∧
      Part (descent learningRate) base.toNat count.toNat (fun i => ∃ row ∈ ds.data, ∃ e ∈ row, cell e.1 = i) p L := by
  obtain ⟨ids, listed, distinct, members, inside⟩ :=
    itemIds_gives fun row member e there => (items row member e there).2
  have ids_items : ∀ id ∈ ids, id.toNat < m.nitems.toNat := by
    intro id member
    obtain ⟨row, there, e, here, rfl⟩ := (members id).mp member
    obtain ⟨bound, slot⟩ := items row there e here
    rwa [narrow_cell (Nat.lt_trans slot (by decide))]
  have few : ids.length < 2 ^ 32 := Nat.lt_of_le_of_lt (slots_length distinct inside) (by decide)
  obtain ⟨itemModels, set, values⟩ := setItems (p := p) ids inside
  have sent := serializeFromDense_withParams (p := p) w formed users small few ids_items
  have userFull : ∀ e ∈ (userRange base count).map (userEntry p), e.2.2.length = numFactors := by
    intro e member
    obtain ⟨id, _, rfl⟩ := List.mem_map.mp member
    exact vec_length
  have itemFull : ∀ e ∈ ids.map (itemEntry p), e.2.2.length = numFactors := by
    intro e member
    obtain ⟨id, _, rfl⟩ := List.mem_map.mp member
    exact vec_length
  have loaded := loadSerialized_decodes w (ofSize 0) userFull itemFull set []
  rw [List.length_map, List.length_map, userRange_length small, List.append_nil] at loaded
  let L : SparseMFModel F := { (ofSize 0 : SparseMFModel F) with
    nfactors := UInt64.ofNat numFactors
    userModels := ((userRange base count).map (userEntry p)).map fun e => (e.1.toInt32, e.2)
    itemModels := itemModels }
  refine ⟨L, ?_, ?_⟩
  · rw [fetch, bind_of_ok listed, bind_of_ok sent]
    exact bind_of_ok loaded _
  · constructor
    · intro j below
      obtain ⟨id, found, value⟩ := userRange_getElem? small below
      refine ⟨id.toInt32, ?_⟩
      simp only [L, List.getElem?_map, found, Option.map_some, userEntry, value]
    · simp only [L, List.length_map, userRange_length small]
    · intro slot ⟨row, there, e, here, same⟩
      apply values slot
      refine ⟨e.1.toUInt32, (members _).mpr ⟨row, there, e, here, rfl⟩, ?_⟩
      have small := (items row there e here).2
      rw [narrow_cell (Nat.lt_trans small (by decide)), same]
    · rfl
    · rfl
    · rfl
    · rfl

end Loading
end SparseMFModel
end MF

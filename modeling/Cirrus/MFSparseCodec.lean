import Cirrus.MFReply

/-!
A part of a dense model, written by `serializeFromDense` and loaded into an
empty `SparseMFModel`: users are found by their position again, and items by
their id.
-/
namespace MF
open Gradients SparseLR Factorization Loops Decoder
variable {B F : Type}

namespace SparseMFModel

section Loading
variable [OfScientific F] {w : Wire B F} {empty : SparseMFModel F}

theorem setItem_of_load (users items : List (UInt32 × F × List F)) (usersFull : ∀ e ∈ users, e.2.2.length = numFactors)
    (itemsFull : ∀ e ∈ items, e.2.2.length = numFactors) {L : SparseMFModel F} {rest : List B}
    (done : loadSerialized w empty users.length items.length
      (users.flatMap (putModel w) ++ items.flatMap (putModel w)) = .ok (L, rest)) :
    ∃ models, items.foldlM setItem empty.itemModels = .ok models := by
  have readUsers := Decodes.rounds 0 users (fun _ e _ member => loadModel_putModel w (usersFull e member))
    (items.flatMap (putModel w))
  have readItems := Decodes.rounds 0 items (fun _ e _ member => loadModel_putModel w (itemsFull e member)) []
  rw [List.append_nil] at readItems
  rw [loadSerialized, bind_ok readUsers, bind_ok readItems] at done
  obtain ⟨models, _, stored, _⟩ := Decoder.ok_of_bind done
  cases set : items.foldlM setItem empty.itemModels with
  | ok models => exact ⟨models, rfl⟩
  | error fault =>
    rw [set] at stored
    cases stored

end Loading

structure Loaded [Zero F] [Add F] [Mul F] (m : MFModel F) (base count : UInt32) (ids : List UInt32)
    (L : SparseMFModel F) : Prop where
  length : L.userModels.length = count.toNat
  users : ∀ i < count.toNat, ∃ id : Int32, id.toUInt32.toNat = base.toNat + i ∧ L.userModels[i]? =
    some (id, m.params.userBias (base.toNat + i), vec numFactors (m.params.userFactors (base.toNat + i)))
  items : ∀ slot : Fin itemSlots, slot.val ∈ ids.map UInt32.toNat →
    L.itemModels slot = (m.params.itemBias slot, vec numFactors (m.params.itemFactors slot))
  others : ∀ slot : Fin itemSlots, slot.val ∉ ids.map UInt32.toNat → L.itemModels slot = (0, [])
  predict : ∀ i < count.toNat, ∀ id ∈ ids, ∃ x, L.predict (UInt32.ofNat i) id = .ok x ∧
    m.predict (base + UInt32.ofNat i) id = .ok x

/-- The bytes that are written are read back, all of them and no others. -/
def RoundTrip [Zero F] [Add F] [Mul F] [OfScientific F] (w : Wire B F) (m : MFModel F)
    (base count kItems : UInt32) (ids : List UInt32) : Prop :=
  ∃ bytes L, serializeFromDense w m base count kItems (ids.flatMap w.u32.put) = .ok bytes ∧
    bytes.length = (count.toNat + ids.length) * (8 + 4 * numFactors) ∧
    Decodes (loadSerialized w (ofSize 0) count.toNat kItems.toNat) bytes L ∧ Loaded m base count ids L

section Ids

theorem narrow_toInt32 (id : UInt32) : (wide id.toInt32).toUInt32 = id := by
  rw [wide_narrow, UInt32.toUInt32_toInt32]

theorem cell_toInt32 {id : UInt32} (slot : id.toNat < itemSlots) : cell id.toInt32 = id.toNat := by
  have inside : cell id.toInt32 < itemSlots := cell_of_narrow (by rwa [UInt32.toUInt32_toInt32])
  rw [← narrow_cell (Nat.lt_trans inside (by decide)), UInt32.toUInt32_toInt32]

end Ids

section Codec
variable [Zero F] [OfScientific F] {w : Wire B F} {m : MFModel F} {base count kItems : UInt32} {ids : List UInt32}

def partOf (m : MFModel F) (base count : UInt32) (ids : List UInt32) : SparseMFModel F :=
  { (ofSize 0 : SparseMFModel F) with
    nfactors := UInt64.ofNat numFactors
    userModels := ((userRange base count).map (userEntry m.params)).map fun e => (e.1.toInt32, e.2)
    itemModels := fun slot =>
      if slot.val ∈ ids.map UInt32.toNat then (m.params.itemBias slot, vec numFactors (m.params.itemFactors slot))
      else (0, []) }

theorem partOf_count (small : base.toNat + count.toNat < 2 ^ 32) :
    (partOf m base count ids).userModels.length = count.toNat := by
  rw [partOf, List.length_map, List.length_map, userRange_length small]

theorem partOf_users (m : MFModel F) (ids : List UInt32) (small : base.toNat + count.toNat < 2 ^ 32) {i : Nat} (below : i < count.toNat) :
    ∃ id : Int32, id.toUInt32.toNat = base.toNat + i ∧ (partOf m base count ids).userModels[i]? =
      some (id, m.params.userBias (base.toNat + i), vec numFactors (m.params.userFactors (base.toNat + i))) := by
  obtain ⟨id, found, value⟩ := userRange_getElem? small below
  refine ⟨id.toInt32, by rw [UInt32.toUInt32_toInt32, value], ?_⟩
  simp only [partOf, List.getElem?_map, found, Option.map_some, userEntry, value]

theorem partOf_part (m : MFModel F) (ids : List UInt32) (small : base.toNat + count.toNat < 2 ^ 32) (learningRate : F) :
    Part (descent learningRate) base.toNat count.toNat (· ∈ ids.map UInt32.toNat) m.params (partOf m base count ids) where
  users := by
    intro j below
    obtain ⟨id, _, found⟩ := partOf_users m ids small below
    exact ⟨id, found⟩
  count := partOf_count small
  items slot listed := if_pos listed
  nfactors := rfl
  factors := rfl
  globalBias := rfl
  reg := rfl

theorem partOf_decodes (m : MFModel F) (ids : List UInt32) (small : base.toNat + count.toNat < 2 ^ 32) (slots : ∀ id ∈ ids, id.toNat < itemSlots) :
    Decodes (loadSerialized w (ofSize 0) count.toNat ids.length)
      (((userRange base count).map (userEntry m.params)).flatMap (putModel w) ++
        (ids.map (itemEntry m.params)).flatMap (putModel w)) (partOf m base count ids) := by
  have usersFull : ∀ e ∈ (userRange base count).map (userEntry m.params), e.2.2.length = numFactors :=
    List.forall_mem_map.mpr fun _ _ => vec_length
  have itemsFull : ∀ e ∈ ids.map (itemEntry m.params), e.2.2.length = numFactors :=
    List.forall_mem_map.mpr fun _ _ => vec_length
  have decodes := loadSerialized_decodes w (ofSize 0) usersFull itemsFull (foldlM_setItem ids slots _)
  rwa [List.length_map, List.length_map, userRange_length small] at decodes

variable [Add F] [Mul F]

theorem partOf_predict (formed : m.WellFormed) (fresh : m.globalBias = MFModel.initialGlobalBias)
    (users : base.toNat + count.toNat ≤ m.nusers.toNat) (small : base.toNat + count.toNat < 2 ^ 32) {i : Nat}
    (below : i < count.toNat) {id : UInt32} (listed : id ∈ ids) (slot : id.toNat < itemSlots)
    (item : id.toNat < m.nitems.toNat) :
    ∃ x, (partOf m base count ids).predict (UInt32.ofNat i) id = .ok x ∧ m.predict (base + UInt32.ofNat i) id = .ok x := by
  have here : cell id.toInt32 = id.toNat := cell_toInt32 slot
  have known : cell id.toInt32 ∈ ids.map UInt32.toNat := by
    rw [here]
    exact List.mem_map_of_mem listed
  have sparse := predict_part (partOf_part m ids small (0 : F)) below (by omega)
    (show cell id.toInt32 < itemSlots by rwa [here]) known
  have index : (UInt32.ofNat i).toNat = i := UInt32.toNat_ofNat_of_lt' (show i < UInt32.size by rw [UInt32.size]; omega)
  have user : (base + UInt32.ofNat i).toUInt64.toNat = base.toNat + i := by
    rw [UInt32.toNat_toUInt64, UInt32.toNat_add, index]
    exact Nat.mod_eq_of_lt (by omega)
  have user_there : (base + UInt32.ofNat i).toUInt64.toNat < m.nusers.toNat := by omega
  have item_there : id.toUInt64.toNat < m.nitems.toNat := by rwa [UInt32.toNat_toUInt64]
  have dense := MFModel.predict_withParams (p := m.params) formed user_there (by omega) item_there
    (Nat.lt_trans (by rwa [UInt32.toNat_toUInt64]) (show itemSlots < 2 ^ 32 by decide))
  rw [narrow_toInt32, here] at sparse
  rw [formed.withParams_params, UInt32.toUInt32_toUInt64, UInt32.toUInt32_toUInt64, user, UInt32.toNat_toUInt64, fresh] at dense
  exact ⟨_, sparse, dense⟩

/-- The part of a model that is asked for comes back from its bytes, with the predictions of the model. -/
theorem sparse_round_trip (w : Wire B F) (m : MFModel F) (formed : m.WellFormed)
    (fresh : m.globalBias = MFModel.initialGlobalBias) (base count kItems : UInt32) (ids : List UInt32)
    (users : base.toNat + count.toNat ≤ m.nusers.toNat) (small : base.toNat + count.toNat < 2 ^ 32)
    (counted : ids.length = kItems.toNat) (items : ∀ id ∈ ids, id.toNat < m.nitems.toNat)
    (slots : ∀ id ∈ ids, id.toNat < itemSlots) : RoundTrip w m base count kItems ids := by
  have few : ids.length < 2 ^ 32 := counted ▸ kItems.toNat_lt
  have same : kItems = UInt32.ofNat ids.length := by rw [counted, UInt32.ofNat_toNat]
  have written := serializeFromDense_withParams (p := m.params) w formed users small few items
  rw [formed.withParams_params] at written
  have length := MFReply.serializeFromDense_length written
  rw [userRange_length small, ← same, ← counted, ← Nat.add_mul] at length
  have decodes := partOf_decodes (w := w) m ids small slots
  rw [counted] at decodes
  refine ⟨_, partOf m base count ids, same ▸ written, length, decodes, ?_⟩
  constructor
  · exact partOf_count small
  · exact fun i below => partOf_users m ids small below
  · exact fun slot listed => if_pos listed
  · exact fun slot absent => if_neg absent
  · exact fun i below id listed => partOf_predict formed fresh users small below listed (slots id listed) (items id listed)

end Codec

section Runs

def twoUsers : MFModel ℚ where
  nusers := 2
  nitems := 1
  nfactors := UInt64.ofNat numFactors
  userWeights := List.replicate 20 (1 / 2)
  itemWeights := List.replicate 10 (1 / 4)
  userBias := [0, 1]
  itemBias := [2]
  globalBias := MFModel.initialGlobalBias

theorem twoUsers_formed : twoUsers.WellFormed where
  nfactors := rfl
  userBias := rfl
  itemBias := rfl
  userWeights := rfl
  itemWeights := rfl
  users := by decide
  items := by decide

theorem sparse_round_trip_twice : RoundTrip Exact.wire twoUsers 1 1 2 [0, 0] :=
  sparse_round_trip Exact.wire twoUsers twoUsers_formed rfl 1 1 2 [0, 0] (by decide) (by decide) (by decide)
    (List.forall_mem_cons.mpr ⟨by decide, List.forall_mem_singleton.mpr (by decide)⟩)
    (List.forall_mem_cons.mpr ⟨by decide, List.forall_mem_singleton.mpr (by decide)⟩)

def manyItems : MFModel ℚ where
  nusers := 0
  nitems := 17771
  nfactors := UInt64.ofNat numFactors
  userWeights := []
  itemWeights := List.replicate (17771 * numFactors) 0
  userBias := []
  itemBias := List.replicate 17771 0
  globalBias := MFModel.initialGlobalBias

theorem manyItems_formed : manyItems.WellFormed where
  nfactors := rfl
  userBias := rfl
  itemBias := List.length_replicate
  userWeights := rfl
  itemWeights := List.length_replicate
  users := by decide
  items := by decide

theorem last_item_not_loaded : ¬ ∀ (m : MFModel ℚ) (base count kItems : UInt32) (ids : List UInt32), m.WellFormed →
    m.globalBias = MFModel.initialGlobalBias → base.toNat + count.toNat ≤ m.nusers.toNat →
    ids.length = kItems.toNat → (∀ id ∈ ids, id.toNat < m.nitems.toNat) →
    RoundTrip Exact.wire m base count kItems ids := by
  intro always
  have item : ∀ id ∈ [(17770 : UInt32)], id.toNat < manyItems.nitems.toNat := List.forall_mem_singleton.mpr (by decide)
  obtain ⟨bytes, L, written, _, decodes, _⟩ := always manyItems 0 0 1 [17770] manyItems_formed rfl (by decide) rfl item
  have users : (0 : UInt32).toNat + (0 : UInt32).toNat ≤ manyItems.nusers.toNat := by decide
  have expected := serializeFromDense_withParams (p := manyItems.params) Exact.wire manyItems_formed users (by decide)
    (by decide) item
  rw [manyItems_formed.withParams_params] at expected
  cases expected.symm.trans written
  have loads := decodes []
  rw [List.append_nil] at loads
  obtain ⟨models, stored⟩ := setItem_of_load [] [itemEntry manyItems.params 17770] nofun
    (List.forall_mem_singleton.mpr vec_length) loads
  cases stored

end Runs
end SparseMFModel
end MF

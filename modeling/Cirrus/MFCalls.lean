import Cirrus.MFDenseCodec
import Cirrus.MFGradientCodec
import Cirrus.ModelLock

/-!
The two halves of each call that concerns the factorization: what the client
makes of the reply of the server, and what the server does with the request.
-/
namespace MFCalls
open Gradients SparseLR MF SparseMFModel ServerTask ServerInterface Stream Stream.Prog Decoder
variable {B F : Type} {w : Wire B F}

section Loading
variable {m : MFModel F}

theorem sized_of_formed (formed : m.WellFormed) : m.Sized := by
  have factors : m.nfactors.toNat = numFactors := by
    rw [formed.nfactors]
    rfl
  constructor
  · exact formed.userBias
  · exact formed.itemBias
  · rw [factors, formed.userWeights]
  · rw [factors, formed.itemWeights]
  · rw [factors]
    exact formed.users
  · rw [factors]
    exact formed.items

variable [OfScientific F]

/-- The global bias is not among the bytes. -/
theorem loadSerialized_serializeTo (sized : m.Sized) :
    Decodes (MFModel.loadSerialized w) (m.serializeTo w) { m with globalBias := MFModel.initialGlobalBias } := by
  have each : ∀ x : F, Decodes w.feature.load (w.feature.put x) x := fun x => .load w.feature x
  have biases : ∀ v : List F, Decodes (rounds (fun _ => w.feature.load) 0 v.length) (v.flatMap w.feature.put) v :=
    fun v => .rounds 0 v fun _ x _ _ => each x
  obtain ⟨users, userRows, loadUsers⟩ := Decodes.rows each m.nfactors.toNat sized.userWeights 0
  obtain ⟨items, itemRows, loadItems⟩ := Decodes.rows each m.nfactors.toNat sized.itemWeights 0
  unfold MFModel.loadSerialized MFModel.serializeTo
  apply Decodes.bind (.load w.u64 _)
  apply Decodes.bind (.load w.u64 _)
  apply Decodes.bind (.load w.u64 _)
  rw [← sized.userBias, ← sized.itemBias] at *
  apply Decodes.bind (biases _)
  apply Decodes.bind (biases _)
  apply Decodes.bind loadUsers
  have same : { m with globalBias := MFModel.initialGlobalBias } =
      { m with
        userWeights := users.flatten
        itemWeights := items.flatten
        globalBias := MFModel.initialGlobalBias } := by
    rw [userRows, itemRows]
  rw [same]
  exact loadItems.last

variable [Zero F]

theorem getFullModel_asks (sized : m.Sized) (fits : m.getSerializedSize ≤ threadBufferSize) :
    Talks (getFullModel w true) (w.u32.put (UInt32.ofNat m.getSerializedSize) ++ m.serializeTo w)
      (w.u32.put PsOp.getMfFullModel.code) (.inl { m with globalBias := MFModel.initialGlobalBias }) := by
  have size : (UInt32.ofNat m.getSerializedSize).toNat = (m.serializeTo w).length := by
    rw [m.serializeTo_length]
    exact UInt32.toNat_ofNat_of_lt' (Nat.lt_of_le_of_lt fits (by decide))
  have loads := loadSerialized_serializeTo (w := w) sized []
  rw [List.append_nil] at loads
  apply Talks.say_last
  apply Talks.read (w.u32.put_length _) (by decide)
  dsimp only
  rw [w.u32.get_put, size]
  apply Talks.read_last rfl
  · rw [m.serializeTo_length, MFModel.getSerializedSize]
    omega
  · exact .work loads (.pure _)

end Loading

section Serving
variable [DecidableEq B] [Zero F] [One F] [Add F] [Sub F] [Mul F] [Div F] [FloatOps F]

theorem processGetMfFullModel_answers {worker : Worker B} {s : Server B F}
    (fits : s.mfModel.getSerializedSize ≤ threadBufferSize) :
    Talks (gradientF w worker s) (w.u32.put PsOp.getMfFullModel.code)
      (w.u32.put (UInt32.ofNat s.mfModel.getSerializedSize) ++ s.mfModel.serializeTo w) { server := s } := by
  have size : (UInt32.ofNat s.mfModel.getSerializedSize).toNat = s.mfModel.getSerializedSize :=
    UInt32.toNat_ofNat_of_lt' (Nat.lt_of_le_of_lt fits (by decide))
  have length : (s.mfModel.serializeTo w).length = s.mfModel.getSerializedSize := s.mfModel.serializeTo_length w
  have handles : Talks (processGetMfFullModel w worker s) []
      (w.u32.put (UInt32.ofNat s.mfModel.getSerializedSize) ++ s.mfModel.serializeTo w) { server := s } := by
    unfold processGetMfFullModel
    dsimp only
    rw [size, length, worker.sizes.1, if_neg (by omega), if_neg (by omega), overwrite, List.take_left' length]
    exact .say _ (.say_last _ (.pure _))
  have served : operationToF w .getMfFullModel = some (processGetMfFullModel w) := rfl
  have whole := gradientF_read worker s served handles
  rwa [List.append_nil] at whole

end Serving

section Part
variable [Zero F] [OfScientific F] {ds : SparseDataset F} {ids : List UInt32}

theorem getSparseMfModel_asks (base count : UInt32) (listed : itemIds ds = .ok ids) (few : ids.length ≤ itemSlots)
    {size : UInt32} {data : List B} {model : SparseMFModel F} (sized : size.toNat = data.length)
    (some_data : 0 < data.length)
    (loads : Decodes (SparseMFModel.loadSerialized w (ofSize 0) count.toNat ids.length) data model) :
    Talks (getSparseMfModel w ds base count) (w.u32.put size ++ data)
      (w.u32.put PsOp.getMfSparseModel.code ++ (w.u32.put (UInt32.ofNat (MFReply.request w ids base count).length) ++
        MFReply.request w ids base count)) model := by
  have length : 4 * 4 + 4 * UInt32.ofNat ids.length = UInt32.ofNat (MFReply.request w ids base count).length := by
    rw [MFReply.request_length, UInt32.ofNat_add, UInt32.ofNat_mul]
    rfl
  have room : ¬ maxMsgSize < (MFReply.request w ids base count).length := by
    rw [MFReply.request_length, maxMsgSize]
    unfold itemSlots at few
    omega
  have item_count : (UInt32.ofNat ids.length).toNat = ids.length :=
    UInt32.toNat_ofNat_of_lt' (Nat.lt_of_le_of_lt few (by decide))
  have whole := loads []
  rw [List.append_nil] at whole
  apply Talks.work listed
  dsimp only
  rw [item_count, length, ← MFReply.request, if_neg room]
  apply Talks.say
  apply Talks.say
  apply Talks.say_last
  apply Talks.read (w.u32.put_length size) (by decide)
  dsimp only
  rw [w.u32.get_put, sized]
  apply Talks.read_last rfl some_data
  exact .work whole (.pure _)

end Part

section Update
variable {m : MFModel F}

theorem store_formed (formed : m.WellFormed) (p : Parameter) (x : F) : (m.store p x).WellFormed := by
  cases p with
  | userBias i => exact { formed with userBias := List.length_set.trans formed.userBias }
  | itemBias i => exact { formed with itemBias := List.length_set.trans formed.itemBias }
  | userWeight i => exact { formed with userWeights := List.length_set.trans formed.userWeights }
  | itemWeight i => exact { formed with itemWeights := List.length_set.trans formed.itemWeights }

theorem store_dimensions (m : MFModel F) (p : Parameter) (x : F) :
    (m.store p x).nusers = m.nusers ∧ (m.store p x).nitems = m.nitems := by
  cases p <;> exact ⟨rfl, rfl⟩

theorem mem_pairs_received {l : IdMap F} {e : Int32 × F} :
    e ∈ MFSparseGradient.pairs (MFSparseGradient.insertAll ∅ (MFSparseGradient.pairs l)) ↔ e ∈ MFSparseGradient.pairs l := by
  rw [MFModel.mem_pairs, MFModel.mem_pairs, MFSparseGradient.lookup_insertAll_pairs]

theorem received_inside {g : MFSparseGradient F} (inside : ModelLock.MfInModel m g) : ModelLock.MfInModel m g.received where
  userBias e member := inside.userBias e (mem_pairs_received.mp member)
  itemBias e member := inside.itemBias e (mem_pairs_received.mp member)
  userWeights := inside.userWeights
  itemWeights := inside.itemWeights

variable [Add F]

theorem addAll_formed (formed : m.WellFormed) (l : List (Parameter × F)) :
    ((MFModel.cells F).addAll m l).WellFormed ∧ ((MFModel.cells F).addAll m l).nusers = m.nusers ∧
      ((MFModel.cells F).addAll m l).nitems = m.nitems := by
  induction l generalizing m with
  | nil => exact ⟨formed, rfl, rfl⟩
  | cons e l ih =>
    rw [Cells.addAll, List.foldl_cons, ← Cells.addAll]
    cases found : (MFModel.cells F).load m e.1 with
    | none =>
      rw [(MFModel.cells F).add_of_missing found]
      exact ih formed
    | some y =>
      rw [(MFModel.cells F).add_of_load found]
      obtain ⟨kept, users, items⟩ := ih (store_formed formed e.1 (y + e.2))
      obtain ⟨users', items'⟩ := store_dimensions m e.1 (y + e.2)
      exact ⟨kept, users.trans users', items.trans items'⟩

theorem sgdUpdate_gives (formed : m.WellFormed) {g : MFSparseGradient F}
    (factors : ∀ e ∈ g.usersWeightsGrad ++ g.itemsWeightsGrad, e.2.length = numFactors)
    (inside : ModelLock.MfInModel m g) :
    ∃ t, m.sgdUpdate g = .ok t ∧ t.WellFormed ∧ t.nusers = m.nusers ∧ t.nitems = m.nitems := by
  have fits := (ModelLock.accesses_fit formed factors).mpr inside
  rw [MFModel.sgdUpdate_accesses]
  exact ⟨_, MFModel.accesses_ok.mpr ⟨fits, rfl⟩, addAll_formed formed _⟩

end Update
end MFCalls

import Cirrus.GradientAccepted
import Cirrus.LRFetch
import Cirrus.Lib.Session
import Cirrus.MFCalls

/-!
The calls that a client makes on a connection, all but those of the key-value
store: for each its message, the server's reply to it, what the server makes of
its own state and what the client gets.
-/
namespace Calls
open Gradients SparseLR MF SparseMFModel ServerTask ServerInterface Stream Stream.Prog Decoder
variable {B F : Type}

inductive Call (F : Type) where
  | registerTask (id remainingTimeSec : UInt32)
  | deregisterTask (id : UInt32)
  | setStatus (id status : UInt32)
  | getStatus (id : UInt32)
  | sendLrGradient (gradient : LRSparseGradient F)
  | sendMfGradient (gradient : MFSparseGradient F)
  | getLrSparseModelInplace (ds : SparseDataset F) (model : SparseLRModel F) (config : Configuration F)
  | getSparseMfModel (ds : SparseDataset F) (userBase minibatchSize : UInt32)
  | getFullModel (isCollaborative : Bool)

inductive Returned (F : Type) where
  | nothing
  | word (status : UInt32)
  | lrModel (model : SparseLRModel F)
  | sparseMfModel (model : SparseMFModel F)
  | fullModel (model : MFModel F ⊕ SparseLRModel F)

def items (ds : SparseDataset F) : List UInt32 := (itemIds ds).toOption.getD []

section Client
variable (w : Wire B F)

def ask [Zero F] [OfScientific F] : Call F → Prog B (Returned F)
  | .registerTask id remainingTimeSec => do pure (.word (← registerTask w id remainingTimeSec))
  | .deregisterTask id => do pure (.word (← deregisterTask w id))
  | .setStatus id status => do pure ((fun _ => .nothing) (← setStatus w id status))
  | .getStatus id => do pure (.word (← getStatus w id))
  | .sendLrGradient gradient => do pure ((fun _ => .nothing) (← sendLrGradient w gradient))
  | .sendMfGradient gradient => do pure ((fun _ => .nothing) (← sendMfGradient w gradient))
  | .getLrSparseModelInplace ds model config => do pure (.lrModel (← getLrSparseModelInplace w ds model config))
  | .getSparseMfModel ds userBase minibatchSize => do
    pure (.sparseMfModel (← getSparseMfModel w ds userBase minibatchSize))
  | .getFullModel isCollaborative => do pure (.fullModel (← getFullModel w isCollaborative))

def withSize (body : List B) : List B := w.u32.put (UInt32.ofNat body.length) ++ body

def message : Call F → List B
  | .registerTask id remainingTimeSec =>
    w.u32.put PsOp.registerTask.code ++ (w.u32.put id ++ w.u32.put remainingTimeSec)
  | .deregisterTask id => w.u32.put PsOp.deregisterTask.code ++ w.u32.put id
  | .setStatus id status => w.u32.put PsOp.setTaskStatus.code ++ (w.u32.put id ++ w.u32.put status)
  | .getStatus id => w.u32.put PsOp.getTaskStatus.code ++ w.u32.put id
  | .sendLrGradient gradient => lrMessage w gradient
  | .sendMfGradient gradient => mfMessage w gradient
  | .getLrSparseModelInplace ds _ _ =>
    w.u32.put PsOp.getLrSparseModel.code ++ withSize w (LRFetch.request w (features ds))
  | .getSparseMfModel ds userBase minibatchSize =>
    w.u32.put PsOp.getMfSparseModel.code ++ withSize w (MFReply.request w (items ds) userBase minibatchSize)
  | .getFullModel true => w.u32.put PsOp.getMfFullModel.code
  | .getFullModel false => w.u32.put PsOp.getLrFullModel.code

theorem some_message (c : Call F) : message w c ≠ [] := by
  have positive : ∀ (op : PsOp) (rest : List B), w.u32.put op.code ++ rest ≠ [] := by
    intro op rest empty
    have length := congrArg List.length empty
    rw [List.length_append, w.u32.put_length, List.length_nil] at length
    omega
  have alone : ∀ op : PsOp, w.u32.put op.code ≠ [] := by
    intro op empty
    exact positive op [] (by rw [empty]; rfl)
  cases c with
  | getFullModel isCollaborative => cases isCollaborative <;> exact alone _
  | _ => exact positive _ _

theorem speaks_first [Zero F] [OfScientific F] (c : Call F) : SpeaksFirst (ask w c) := by
  have word : ∀ (message : List B) (next : Option (List B) → Prog B UInt32),
      (∀ status, Mute (next (some status))) → Mute (next none) → SpeaksFirst (do sendAll message; readAll 4 >>= next) := by
    intro message next answered closed
    rw [speaksFirst_say, speaksFirst_read]
    intro cells
    cases cells with
    | none => exact closed
    | some status => exact answered status
  have gradient : ∀ size length : Nat, ∀ data : List B, ∀ zero : Prop, ∀ [Decidable zero],
      SpeaksFirst (if size < length then fail .undefined else do
        sendAll data
        if zero then fail (.exception "Error sending grad") else (pure () : Prog B Unit)) := by
    intro size length data zero _
    split
    · trivial
    · rw [speaksFirst_say]
      split <;> trivial
  cases c with
  | registerTask id remainingTimeSec => exact speaksFirst_map _ (word _ _ (fun _ => trivial) trivial)
  | deregisterTask id => exact speaksFirst_map _ (word _ _ (fun _ => trivial) trivial)
  | setStatus id status => exact speaksFirst_map _ trivial
  | getStatus id => exact speaksFirst_map _ (word _ _ (fun _ => trivial) trivial)
  | sendLrGradient g => exact speaksFirst_map _ (gradient _ _ _ _)
  | sendMfGradient g => exact speaksFirst_map _ (speaksFirst_compute fun data => gradient _ _ _ _)
  | getLrSparseModelInplace ds model config =>
    apply speaksFirst_map
    unfold getLrSparseModelInplace
    dsimp only
    split
    · trivial
    · rw [speaksFirst_say, speaksFirst_say, speaksFirst_say, speaksFirst_read]
      intro cells
      cases SparseLRModel.loadSerializedSparse w model (cells.getD []) _ _ config <;> trivial
  | getSparseMfModel ds userBase minibatchSize =>
    apply speaksFirst_map
    apply speaksFirst_compute
    intro ids
    dsimp only
    split
    · trivial
    · rw [speaksFirst_say, speaksFirst_say, speaksFirst_say, speaksFirst_read]
      intro cells
      cases cells with
      | none => trivial
      | some size =>
        intro cells
        cases cells with
        | none => trivial
        | some buffer => exact mute_compute fun _ => trivial
  | getFullModel isCollaborative =>
    apply speaksFirst_map
    cases isCollaborative with
    | true =>
      intro cells
      cases cells with
      | none => trivial
      | some size => exact fun cells => mute_compute fun _ => trivial
    | false =>
      intro cells
      cases cells with
      | none => trivial
      | some size =>
        change Mute (if _ then _ else _)
        split
        · trivial
        · intro cells
          cases cells with
          | none => trivial
          | some weights => exact mute_compute fun _ => trivial

end Client

section Definitions
variable [Zero F] [One F] [Add F] [Sub F] [Mul F] [Div F] [FloatOps F] [OfScientific F]

def statusOf (s : Server B F) (id : UInt32) : UInt32 := if s.taskToStatus.lookup id.toInt32 = some true then 1 else 0

def edited (s : Server B F) (i : UInt32) : F := s.optMethod.editWeight (s.lrModel.weights.getD i.toNat 0)

def partBytes (w : Wire B F) (m : MFModel F) (base count : UInt32) (ids : List UInt32) : List B :=
  ((userRange base count).map (userEntry m.params)).flatMap (putModel w) ++
    (ids.map (itemEntry m.params)).flatMap (putModel w)

def reply (w : Wire B F) (worker : Worker B) (s : Server B F) : Call F → List B
  | .registerTask id remainingTimeSec =>
    w.u32.put (TaskRegistry.processRegisterTask s.tasks id remainingTimeSec worker.now true).2
  | .deregisterTask id => w.u32.put (TaskRegistry.processDeregisterTask s.tasks id).2
  | .setStatus _ _ => []
  | .getStatus id => w.u32.put (statusOf s id)
  | .sendLrGradient _ => []
  | .sendMfGradient _ => []
  | .getLrSparseModelInplace ds _ _ => ((features ds).map (edited s)).flatMap w.feature.put
  | .getSparseMfModel ds userBase minibatchSize =>
    w.u32.put (MFReply.toSendSize minibatchSize (UInt32.ofNat (items ds).length)) ++
      partBytes w s.mfModel userBase minibatchSize (items ds)
  | .getFullModel true => w.u32.put (UInt32.ofNat s.mfModel.getSerializedSize) ++ s.mfModel.serializeTo w
  | .getFullModel false => s.lrModel.serializeTo w

/-- What the client is to get: a value of the server's state, or what it makes of one. -/
def value (worker : Worker B) (s : Server B F) : Call F → Returned F
  | .registerTask id remainingTimeSec =>
    .word (TaskRegistry.processRegisterTask s.tasks id remainingTimeSec worker.now true).2
  | .deregisterTask id => .word (TaskRegistry.processDeregisterTask s.tasks id).2
  | .setStatus _ _ => .nothing
  | .getStatus id => .word (statusOf s id)
  | .sendLrGradient _ => .nothing
  | .sendMfGradient _ => .nothing
  | .getLrSparseModelInplace ds model config =>
    let reserved := model.reserveSparse (2 ^ config.modelBits)
    .lrModel { reserved with
      isSparse := true
      weightsSparse := LRFetch.stored (edited s) (features ds) reserved.weightsSparse }
  | .getSparseMfModel ds userBase minibatchSize =>
    .sparseMfModel (partOf s.mfModel userBase minibatchSize (items ds))
  | .getFullModel true => .fullModel (.inl { s.mfModel with globalBias := MFModel.initialGlobalBias })
  | .getFullModel false => .fullModel (.inr { (SparseLRModel.ofSize 0 : SparseLRModel F) with weights := s.lrModel.weights })

/-- The server once it has handled a call. A gradient is applied as it is read. -/
def next (worker : Worker B) (s : Server B F) : Call F → Server B F
  | .registerTask id remainingTimeSec =>
    { s with tasks := (TaskRegistry.processRegisterTask s.tasks id remainingTimeSec worker.now true).1 }
  | .deregisterTask id => { s with tasks := (TaskRegistry.processDeregisterTask s.tasks id).1 }
  | .setStatus id status => { s with taskToStatus := s.taskToStatus.insert id.toInt32 (status ≠ 0) }
  | .sendLrGradient gradient =>
    match s.optMethod.sgdUpdate s.lrModel gradient.received with
    | .ok (optMethod, lrModel) =>
      { s with
        optMethod := optMethod
        lrModel := lrModel
        gradientUpdatesCount := s.gradientUpdatesCount + 1 }
    | .error _ => s
  | .sendMfGradient gradient =>
    match s.mfModel.sgdUpdate gradient.received with
    | .ok mfModel => { s with mfModel := mfModel, gradientUpdatesCount := s.gradientUpdatesCount + 1 }
    | .error _ => s
  | .getStatus _ => s
  | .getLrSparseModelInplace _ _ _ => s
  | .getSparseMfModel _ _ _ => s
  | .getFullModel _ => s

end Definitions

structure Shape where
  weights : Nat
  users : UInt64
  items : UInt64

structure HasShape (shape : Shape) (s : Server B F) : Prop where
  lrModel : OptimizationMethod.HasSize s.lrModel shape.weights
  mfModel : s.mfModel.WellFormed
  users : s.mfModel.nusers = shape.users
  items : s.mfModel.nitems = shape.items

def Allowed (shape : Shape) : Call F → Prop
  | .registerTask _ _ => True
  | .deregisterTask _ => True
  | .setStatus _ _ => True
  | .getStatus id => id.toNat < 10000
  | .sendLrGradient gradient => 1 ≤ gradient.weights.length ∧ gradient.weights.length ≤ 9999999
  | .sendMfGradient gradient => MFSparseGradient.Shaped gradient
  | .getLrSparseModelInplace ds _ _ => 1 ≤ (features ds).length ∧ (features ds).length ≤ 262143
  | .getSparseMfModel ds userBase minibatchSize =>
    1 ≤ (features ds).length ∧ 1 ≤ minibatchSize.toNat ∧
      userBase.toNat + minibatchSize.toNat ≤ shape.users.toNat ∧ (∀ i ∈ features ds, i.toNat < shape.items.toNat) ∧
      MFReply.entrySize * (minibatchSize.toNat + (features ds).dedup.length) ≤ threadMsgBufferSize
  | .getFullModel true => 24 + (shape.users.toNat + shape.items.toNat) * (4 + numFactors * 4) ≤ threadBufferSize
  | .getFullModel false => 1 ≤ shape.weights ∧ shape.weights ≤ 9999999

structure IdsInside (shape : Shape) (gradient : MFSparseGradient F) : Prop where
  userBias : ∀ e ∈ MFSparseGradient.pairs gradient.usersBiasGrad, cell e.1 < shape.users.toNat
  itemBias : ∀ e ∈ MFSparseGradient.pairs gradient.itemsBiasGrad, cell e.1 < shape.items.toNat
  userWeights : ∀ e ∈ gradient.usersWeightsGrad, cell e.1 < shape.users.toNat
  itemWeights : ∀ e ∈ gradient.itemsWeightsGrad, cell e.1 < shape.items.toNat

/-- The indices of a call are inside the vectors and the arrays that they are used for, at either end. -/
def Inside [Zero F] (shape : Shape) : Call F → Prop
  | .sendLrGradient gradient => ∀ e ∈ gradient.weights, cell e.1 < shape.weights
  | .sendMfGradient gradient => gradient.getSerializedSize ≤ threadBufferSize ∧ IdsInside shape gradient
  | .getLrSparseModelInplace ds model config =>
    config.modelBits < 31 ∧ ∀ i ∈ features ds, i.toNat < shape.weights ∧
      i.toNat < (model.reserveSparse (2 ^ config.modelBits)).weightsSparse.length
  | .getSparseMfModel ds userBase minibatchSize =>
    userBase.toNat + minibatchSize.toNat < 2 ^ 32 ∧ ∀ i ∈ features ds, i.toNat < itemSlots
  | _ => True

section Listing

theorem items_listed {ds : SparseDataset F} (slots : ∀ i ∈ features ds, i.toNat < itemSlots) :
    itemIds ds = .ok (items ds) ∧ (∀ id, id ∈ items ds ↔ id ∈ features ds) ∧
      (items ds).length = (features ds).dedup.length ∧ (items ds).length ≤ itemSlots := by
  have inside : ∀ row ∈ ds.data, ∀ e ∈ row, cell e.1 < itemSlots := fun row listed e there =>
    cell_of_narrow (slots _ (mem_features.mpr ⟨row, listed, e, there, rfl⟩))
  obtain ⟨ids, listed, distinct, members, small⟩ := itemIds_gives inside
  have same : items ds = ids := by
    rw [items, listed]
    rfl
  have length := MFReply.itemIds_length distinct members
  have few := slots_length distinct small
  rw [same]
  refine ⟨listed, ?_, length, few⟩
  intro id
  rw [members, mem_features]

end Listing

section Shaped
variable {shape : Shape} {s : Server B F} {g : MFSparseGradient F}

theorem inModel_of_ids (shaped : HasShape shape s) (inside : IdsInside shape g) : ModelLock.MfInModel s.mfModel g := by
  obtain ⟨_, _, users, items⟩ := shaped
  constructor
  · rw [users]
    exact inside.userBias
  · rw [items]
    exact inside.itemBias
  · rw [users]
    exact inside.userWeights
  · rw [items]
    exact inside.itemWeights

theorem serialized_fits (shaped : HasShape shape s)
    (allowed : 24 + (shape.users.toNat + shape.items.toNat) * (4 + numFactors * 4) ≤ threadBufferSize) :
    s.mfModel.getSerializedSize ≤ threadBufferSize := by
  obtain ⟨_, formed, users, items⟩ := shaped
  rw [← users, ← items] at allowed
  rw [MFModel.getSerializedSize, formed.userBias, formed.itemBias, formed.userWeights, formed.itemWeights]
  rw [numFactors] at allowed ⊢
  omega

theorem weight_known [Zero F] (shaped : HasShape shape s) {i : UInt32} (inside : i.toNat < shape.weights) :
    s.lrModel.weights[i.toNat]? = some (s.lrModel.weights.getD i.toNat 0) := by
  rw [← shaped.lrModel.weights] at inside
  rw [List.getD_eq_getElem?_getD, List.getElem?_eq_getElem inside, Option.getD_some]

theorem few_entries (g : MFSparseGradient F) (fits : g.getSerializedSize ≤ threadBufferSize) :
    g.usersBiasGrad.entries.length < 2 ^ 32 ∧ g.itemsBiasGrad.entries.length < 2 ^ 32 := by
  rw [MFSparseGradient.getSerializedSize, threadBufferSize] at fits
  omega

section Part
variable [Zero F] {base count : UInt32} {ids : List UInt32}

theorem partBytes_length (w : Wire B F) (m : MFModel F) (ids : List UInt32) (small : base.toNat + count.toNat < 2 ^ 32) :
    (partBytes w m base count ids).length = (count.toNat + ids.length) * MFReply.entrySize := by
  have users : ∀ e ∈ (userRange base count).map (userEntry m.params), e.2.2.length = numFactors :=
    List.forall_mem_map.mpr fun _ _ => Loops.vec_length
  have items : ∀ e ∈ ids.map (itemEntry m.params), e.2.2.length = numFactors :=
    List.forall_mem_map.mpr fun _ _ => Loops.vec_length
  rw [partBytes, List.length_append, MFReply.entries_length users, MFReply.entries_length items, List.length_map,
    List.length_map, userRange_length small, Nat.add_mul]

theorem toSendSize_toNat (few : ids.length ≤ itemSlots)
    (fits : (count.toNat + ids.length) * MFReply.entrySize ≤ threadMsgBufferSize) :
    (MFReply.toSendSize count (UInt32.ofNat ids.length)).toNat = (count.toNat + ids.length) * MFReply.entrySize := by
  have item_count : (UInt32.ofNat ids.length).toNat = ids.length :=
    UInt32.toNat_ofNat_of_lt' (Nat.lt_of_le_of_lt few (by decide))
  rw [MFReply.toSendSize, item_count, ← Nat.add_mul]
  exact UInt32.toNat_ofNat_of_lt' (Nat.lt_of_le_of_lt fits (by decide))

end Part
end Shaped

section Applying
variable [One F] [Add F] [Sub F] [Mul F] [Div F] [FloatOps F] {shape : Shape} {s : Server B F}

theorem next_sendLrGradient (worker : Worker B) (shaped : HasShape shape s) {g : LRSparseGradient F}
    (inside : ∀ e ∈ g.weights, cell e.1 < shape.weights) :
    ∃ method model, s.optMethod.sgdUpdate s.lrModel g = .ok (method, model) ∧
      OptimizationMethod.HasSize model shape.weights ∧ next worker s (.sendLrGradient g) =
        { s with
          optMethod := method
          lrModel := model
          gradientUpdatesCount := s.gradientUpdatesCount + 1 } := by
  obtain ⟨⟨method, model⟩, applied, sized⟩ := s.optMethod.sgdUpdate_gives shaped.lrModel inside
  have same : s.optMethod.sgdUpdate s.lrModel g.received = .ok (method, model) := applied
  exact ⟨method, model, applied, sized, by rw [next, same]⟩

theorem next_sendMfGradient (worker : Worker B) (shaped : HasShape shape s) {g : MFSparseGradient F}
    (formed : MFSparseGradient.Shaped g) (inside : IdsInside shape g) :
    ∃ model, s.mfModel.sgdUpdate g.received = .ok model ∧
      (model.WellFormed ∧ model.nusers = s.mfModel.nusers ∧ model.nitems = s.mfModel.nitems) ∧
      next worker s (.sendMfGradient g) =
        { s with mfModel := model, gradientUpdatesCount := s.gradientUpdatesCount + 1 } := by
  have within := MFCalls.received_inside (inModel_of_ids shaped inside)
  obtain ⟨model, applied, kept⟩ := MFCalls.sgdUpdate_gives shaped.mfModel (g := g.received) formed.factors within
  exact ⟨model, applied, kept, by rw [next, applied]⟩

theorem next_shaped [Zero F] (worker : Worker B) (shaped : HasShape shape s) {c : Call F} (allowed : Allowed shape c)
    (inside : Inside shape c) : HasShape shape (next worker s c) := by
  cases c with
  | registerTask id remainingTimeSec => exact { shaped with }
  | deregisterTask id => exact { shaped with }
  | setStatus id status => exact { shaped with }
  | getStatus id => exact shaped
  | sendLrGradient g =>
    obtain ⟨_, _, _, sized, after⟩ := next_sendLrGradient worker shaped inside
    rw [after]
    exact { shaped with lrModel := sized }
  | sendMfGradient g =>
    obtain ⟨_, _, ⟨formed, users, items⟩, after⟩ := next_sendMfGradient worker shaped allowed inside.2
    rw [after]
    exact
      { shaped with
        mfModel := formed
        users := users.trans shaped.users
        items := items.trans shaped.items }
  | getLrSparseModelInplace ds model config => exact shaped
  | getSparseMfModel ds userBase minibatchSize => exact shaped
  | getFullModel isCollaborative => exact shaped

end Applying

section Asking
variable [Zero F] [Add F] [Mul F] [OfScientific F] {shape : Shape} {s : Server B F}

theorem asks (w : Wire B F) (worker : Worker B) (shaped : HasShape shape s) {c : Call F} (allowed : Allowed shape c)
    (inside : Inside shape c) : Talks (ask w c) (reply w worker s c) (message w c) (value worker s c) := by
  cases c with
  | registerTask id remainingTimeSec => exact Talks.map _ (word_asks w _ _ _)
  | deregisterTask id => exact Talks.map _ (word_asks w _ _ _)
  | setStatus id status => exact Talks.map _ (Talks.sendAll _)
  | getStatus id => exact Talks.map _ (word_asks w _ _ _)
  | sendLrGradient g =>
    obtain ⟨_, few⟩ := allowed
    exact Talks.map _ (sendLrGradient_asks w g (by rw [LRSparseGradient.getSerializedSize]; omega))
  | sendMfGradient g =>
    obtain ⟨fits, _⟩ := inside
    exact Talks.map _ (sendMfGradient_asks w allowed (Nat.lt_of_le_of_lt fits (by decide)))
  | getLrSparseModelInplace ds model config =>
    obtain ⟨some_entry, few⟩ := allowed
    obtain ⟨bits, inside⟩ := inside
    have some_index : features ds ≠ [] := List.length_pos_iff.mp some_entry
    have loads := LRFetch.loadSerializedSparse_stores (w := w) model (if_pos bits) some_index (by omega)
      (fun i member => (inside i member).2) (edited s)
    exact Talks.map _ (LRFetch.getLrSparseModelInplace_asks some_index few (List.length_map _) loads)
  | getSparseMfModel ds userBase minibatchSize =>
    obtain ⟨_, some_user, _, _, fits⟩ := allowed
    obtain ⟨small, slots⟩ := inside
    obtain ⟨listed, members, length, few⟩ := items_listed slots
    rw [← length, Nat.mul_comm] at fits
    have size := toSendSize_toNat few fits
    have decodes := partOf_decodes (w := w) s.mfModel (items ds) small fun id member => slots id ((members id).mp member)
    have sized := size.trans (partBytes_length w s.mfModel (items ds) small).symm
    refine Talks.map _ (MFCalls.getSparseMfModel_asks userBase minibatchSize listed few sized ?_ decodes)
    rw [← sized, size]
    exact Nat.mul_pos (by omega) (by decide)
  | getFullModel isCollaborative =>
    cases isCollaborative with
    | true =>
      exact Talks.map _ (MFCalls.getFullModel_asks (MFCalls.sized_of_formed shaped.mfModel) (serialized_fits shaped allowed))
    | false =>
      have size : s.lrModel.size = shape.weights := shaped.lrModel.weights
      obtain ⟨some_weight, few⟩ := allowed
      exact Talks.map _ (LRFetch.getFullModel_asks (by omega) (by omega))

end Asking

section Serving
variable [DecidableEq B] [Zero F] [One F] [Add F] [Sub F] [Mul F] [Div F] [FloatOps F] {shape : Shape} {s : Server B F}

theorem serves (w : Wire B F) (worker : Worker B) (shaped : HasShape shape s) {c : Call F} (allowed : Allowed shape c)
    (inside : Inside shape c) :
    Talks (gradientF w worker s) (message w c) (reply w worker s c) { server := next worker s c } := by
  cases c with
  | registerTask id remainingTimeSec => exact gradientF_read worker s rfl (processRegisterTask_talks w worker s _ _)
  | deregisterTask id => exact gradientF_read worker s rfl (processDeregisterTask_talks w worker s _)
  | setStatus id status => exact gradientF_read worker s rfl (processSetTaskStatus_talks w worker s _ _)
  | getStatus id => exact gradientF_read worker s rfl (processGetTaskStatus_talks w worker s allowed)
  | sendLrGradient g =>
    obtain ⟨some_weight, few⟩ := allowed
    obtain ⟨method, model, applied, _, after⟩ := next_sendLrGradient worker shaped inside
    rw [after]
    exact GradientAccepted.processSendLrGradient_talks worker some_weight (by omega) applied
  | sendMfGradient g =>
    obtain ⟨fits, ids⟩ := inside
    obtain ⟨users, items⟩ := few_entries g fits
    have length := MFSparseGradient.layout_length w allowed
    obtain ⟨model, applied, _, after⟩ := next_sendMfGradient worker shaped allowed ids
    rw [after]
    apply gradientF_read worker s rfl
    rw [← length]
    apply bodyRequest_talks
    · rw [length, MFSparseGradient.getSerializedSize]
      omega
    · rwa [length]
    · exact MFSparseGradient.loadSerialized_layout w allowed users items _
    · exact Talks.work (f := fun _ => returns _) applied (.pure _)
  | getLrSparseModelInplace ds model config =>
    obtain ⟨some_entry, few⟩ := allowed
    obtain ⟨_, inside⟩ := inside
    have decodes := LRFetch.sparseWeights_decodes (w := w) (s := s)
      (fun i member => weight_known shaped (inside i member).1) (by omega)
    apply gradientF_read worker s rfl
    apply bodyRequest_talks
    · rw [LRFetch.request_length]
      omega
    · rw [LRFetch.request_length, threadBufferSize]
      omega
    · exact decodes _
    · exact .say_last _ (.pure _)
  | getSparseMfModel ds userBase minibatchSize =>
    obtain ⟨some_entry, some_user, users, known, fits⟩ := allowed
    obtain ⟨small, slots⟩ := inside
    obtain ⟨listed, members, length, few⟩ := items_listed slots
    rw [← length, Nat.mul_comm] at fits
    have size := toSendSize_toNat few fits
    have sized := partBytes_length w s.mfModel (items ds) small
    rw [← shaped.users] at users
    rw [← shaped.items] at known
    have written := serializeFromDense_withParams (p := s.mfModel.params) w shaped.mfModel users small
      (Nat.lt_of_le_of_lt few (by decide)) fun id member => known id ((members id).mp member)
    rw [shaped.mfModel.withParams_params, ← partBytes] at written
    apply gradientF_read worker s rfl
    apply MFReply.processGetMfSparseModel_answers worker s _ _ few _ written
    · exact size.trans sized.symm
    · rwa [sized]
    · obtain ⟨i, member⟩ := List.exists_mem_of_length_pos some_entry
      exact List.ne_nil_of_mem ((members i).mpr member)
    · intro none
      rw [none] at some_user
      exact absurd some_user (by decide)
  | getFullModel isCollaborative =>
    cases isCollaborative with
    | true => exact MFCalls.processGetMfFullModel_answers (serialized_fits shaped allowed)
    | false =>
      have size : s.lrModel.size = shape.weights := shaped.lrModel.weights
      obtain ⟨_, few⟩ := allowed
      exact LRFetch.processGetLrFullModel_answers (by rw [SparseLRModel.getSerializedSize, threadBufferSize]; omega)

end Serving
end Calls

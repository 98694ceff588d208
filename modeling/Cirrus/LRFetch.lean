import Cirrus.Exact
import Cirrus.ServerInterface

/-!
How a worker gets weights of the server's model: those of the features of a
minibatch, whose indices the reply leaves out, or all of them, for which the
reply starts with their number.
-/
namespace LRFetch
open Gradients SparseLR MF ServerTask ServerInterface Stream Stream.Prog Decoder
variable {B F : Type}

def serverModelSize (config : Configuration F) : Except Fault Nat := do return (← SparseLRModel.sparseBlock config) + 1

theorem serverModelSize_ok {config : Configuration F} {size : Nat} (started : serverModelSize config = .ok size) :
    SparseLRModel.sparseBlock config = .ok (2 ^ config.modelBits) ∧ size = 2 ^ config.modelBits + 1 := by
  obtain ⟨block, sized, same⟩ := Loops.ok_of_bind started
  cases same
  obtain ⟨small, rfl⟩ := SparseLRModel.sparseBlock_ok sized
  exact ⟨sized, rfl⟩

section Minibatch

/-- The body of the request: the number of entries, then their indices. -/
def request (w : Wire B F) (indices : List UInt32) : List B :=
  w.u32.put (UInt32.ofNat indices.length) ++ indices.flatMap w.u32.put

theorem request_length (w : Wire B F) (indices : List UInt32) : (request w indices).length = 4 + 4 * indices.length := by
  rw [request, List.length_append, w.u32.put_length, w.u32.flatMap_put_length]

section Server
variable [Add F] [Mul F] {w : Wire B F}

theorem loadEntry_decodes {s : Server B F} {index : UInt32} {x : F} (known : s.lrModel.weights[index.toNat]? = some x)
    {i : Nat} (room : (i + 1) * 4 ≤ dataToSendSize) :
    Decodes (loadEntry w s i) (w.u32.put index) (s.optMethod.editWeight x) := by
  have weight : s.lrModel.getNthWeight index.toNat = .ok x := at'_ok.mpr known
  intro rest
  unfold loadEntry
  rw [bind_ok (w.u32.load_put index rest), weight, bind_ok (show lift (.ok x) rest = .ok (x, rest) from rfl),
    check_pos room]
  rfl

theorem sparseWeights_decodes {s : Server B F} {indices : List UInt32} {weight : UInt32 → F}
    (known : ∀ i ∈ indices, s.lrModel.weights[i.toNat]? = some (weight i)) (few : indices.length * 4 < 1024 * 1024) :
    Decodes (sparseWeights w s) (request w indices) (indices.map fun i => s.optMethod.editWeight (weight i)) := by
  have count : (UInt32.ofNat indices.length).toNat = indices.length := UInt32.toNat_ofNat_of_lt' (by rw [UInt32.size]; omega)
  have size : (UInt32.ofNat (indices.length * 4)).toNat = indices.length * 4 := UInt32.toNat_ofNat_of_lt' (by rw [UInt32.size]; omega)
  have entries : Decodes (rounds (loadEntry w s) 0 indices.length) (indices.flatMap w.u32.put)
      (indices.map fun i => s.optMethod.editWeight (weight i)) := by
    apply Decodes.rounds_map
    intro k i below member
    exact loadEntry_decodes (known i member) (by rw [dataToSendSize]; omega)
  apply Decodes.bind (.load w.u32 _)
  dsimp only
  rw [count, size]
  exact .skip (.check few _) entries

end Server

section Client

def stored (value : UInt32 → F) (indices : List UInt32) (cells : List F) : List F :=
  indices.foldl (fun cells i => cells.set i.toNat (value i)) cells

section Stored
variable {value : UInt32 → F} {indices : List UInt32} {cells : List F}

theorem stored_other {k : Nat} (other : ∀ i ∈ indices, i.toNat ≠ k) : (stored value indices cells)[k]? = cells[k]? := by
  induction indices generalizing cells with
  | nil => rfl
  | cons j rest ih =>
    obtain ⟨first, others⟩ := List.forall_mem_cons.mp other
    exact (ih others).trans (List.getElem?_set_ne first)

theorem stored_at {i : UInt32} (member : i ∈ indices) (inside : i.toNat < cells.length) :
    (stored value indices cells)[i.toNat]? = some (value i) := by
  induction indices generalizing cells with
  | nil => cases member
  | cons j rest ih =>
    by_cases again : i ∈ rest
    · exact ih again (by rwa [List.length_set])
    · obtain rfl := (List.mem_cons.mp member).resolve_right again
      have last : ∀ k ∈ rest, k.toNat ≠ i.toNat := fun k there same => again (UInt32.toNat_inj.mp same ▸ there)
      exact (stored_other last).trans (List.getElem?_set_self inside)

theorem storeSparse_stored (m : SparseLRModel F) (inside : ∀ i ∈ indices, i.toNat < m.weightsSparse.length) :
    (indices.zip (indices.map value)).foldlM SparseLRModel.storeSparse m =
      .ok { m with weightsSparse := stored value indices m.weightsSparse } := by
  induction indices generalizing m with
  | nil => rfl
  | cons i rest ih =>
    obtain ⟨here, others⟩ := List.forall_mem_cons.mp inside
    have one : m.storeSparse (i, value i) = .ok { m with weightsSparse := m.weightsSparse.set i.toNat (value i) } := by
      rw [SparseLRModel.storeSparse, setAt_of_lt here]
      rfl
    rw [List.map_cons, List.zip_cons_cons, List.foldlM_cons, Loops.bind_of_ok one]
    apply ih
    intro j member
    rw [List.length_set]
    exact others j member

end Stored

variable [Zero F] {w : Wire B F}

theorem reserveSparse_marked (m : SparseLRModel F) (n : Nat) :
    ({ m with isSparse := true } : SparseLRModel F).reserveSparse n = { m.reserveSparse n with isSparse := true } := by
  unfold SparseLRModel.reserveSparse
  split <;> rfl

theorem loadSerializedSparse_stores (m : SparseLRModel F) {config : Configuration F} {block : Nat}
    (sparse : SparseLRModel.sparseBlock config = .ok block) {indices : List UInt32} (some_index : indices ≠ [])
    (few : indices.length < 10000000) (inside : ∀ i ∈ indices, i.toNat < (m.reserveSparse block).weightsSparse.length)
    (value : UInt32 → F) :
    m.loadSerializedSparse w ((indices.map value).flatMap w.feature.put) (indices.flatMap w.u32.put)
        indices.length config =
      .ok { m.reserveSparse block with
        isSparse := true
        weightsSparse := stored value indices (m.reserveSparse block).weightsSparse } := by
  have positive : 0 < indices.length := List.length_pos_iff.mpr some_index
  have readIndices := Decodes.rounds 0 indices (fun _ i _ _ => Decodes.load w.u32 i) []
  have readValues := Decodes.rounds 0 (indices.map value) (fun _ x _ _ => Decodes.load w.feature x) []
  rw [List.append_nil] at readIndices readValues
  rw [List.length_map] at readValues
  unfold SparseLRModel.loadSerializedSparse
  rw [if_neg (by simp only [not_not]; exact ⟨positive, few⟩), sparse, readIndices]
  change ((rounds (fun _ => w.feature.load) 0 indices.length _) >>= _) = _
  rw [readValues]
  change (indices.zip (indices.map value)).foldlM SparseLRModel.storeSparse (SparseLRModel.reserveSparse _ block) = _
  rw [reserveSparse_marked]
  exact storeSparse_stored _ inside

theorem loadSerializedSparse_gives (m : SparseLRModel F) {config : Configuration F} {block : Nat}
    (sparse : SparseLRModel.sparseBlock config = .ok block) (reserved : block ≤ m.weightsSparse.length)
    {indices : List UInt32} (some_index : indices ≠ []) (few : indices.length < 10000000)
    (inside : ∀ i ∈ indices, i.toNat < block) (value : UInt32 → F) :
    ∃ cells, m.loadSerializedSparse w ((indices.map value).flatMap w.feature.put) (indices.flatMap w.u32.put)
        indices.length config = .ok { m with isSparse := true, weightsSparse := cells } ∧
      (∀ i ∈ indices, cells[i.toNat]? = some (value i)) ∧
      ∀ k, (∀ i ∈ indices, i.toNat ≠ k) → cells[k]? = m.weightsSparse[k]? := by
  have kept : m.reserveSparse block = m := if_neg (Nat.not_lt.mpr reserved)
  have within : ∀ i ∈ indices, i.toNat < m.weightsSparse.length :=
    fun i member => Nat.lt_of_lt_of_le (inside i member) reserved
  have loads := loadSerializedSparse_stores (w := w) m sparse some_index few (by rwa [kept]) value
  rw [kept] at loads
  exact ⟨_, loads, fun i member => stored_at member (within i member), fun k other => stored_other other⟩

theorem getLrSparseModelInplace_asks {ds : SparseDataset F} {m fetched : SparseLRModel F} {config : Configuration F}
    (some_entry : features ds ≠ []) (few : (features ds).length ≤ 262143) {values : List F}
    (same_length : values.length = (features ds).length)
    (loads : m.loadSerializedSparse w (values.flatMap w.feature.put) ((features ds).flatMap w.u32.put)
      (features ds).length config = .ok fetched) :
    Talks (getLrSparseModelInplace w ds m config) (values.flatMap w.feature.put)
      (w.u32.put PsOp.getLrSparseModel.code ++
        (w.u32.put (UInt32.ofNat (request w (features ds)).length) ++ request w (features ds))) fetched := by
  have positive : 0 < (features ds).length := List.length_pos_iff.mpr some_entry
  have count : (UInt32.ofNat (features ds).length).toNat = (features ds).length :=
    UInt32.toNat_ofNat_of_lt' (by rw [UInt32.size]; omega)
  have size : 4 + 4 * UInt32.ofNat (features ds).length = UInt32.ofNat (request w (features ds)).length := by
    rw [request_length, UInt32.ofNat_add, UInt32.ofNat_mul]
    rfl
  have receives : (4 * UInt32.ofNat (features ds).length).toNat = (values.flatMap w.feature.put).length := by
    have four : UInt32.toNat 4 = 4 := rfl
    rw [w.feature.flatMap_put_length, same_length, UInt32.toNat_mul, count, four]
    exact Nat.mod_eq_of_lt (by omega)
  have room : ¬ maxMsgSize < 4 + ((features ds).flatMap w.u32.put).length := by
    rw [w.u32.flatMap_put_length, maxMsgSize]
    omega
  unfold getLrSparseModelInplace
  dsimp only
  rw [if_neg room, size, receives, count]
  apply Talks.say
  apply Talks.say
  apply Talks.say_last
  apply Talks.read_last rfl
  · rw [w.feature.flatMap_put_length, same_length]
    omega
  · exact .compute loads

end Client

/-- Every entry's weight is the server's, as its method edits it, and no other cell has changed. -/
def Fetched [One F] [Add F] [Sub F] [Mul F] [Div F] [FloatOps F] (s : Server B F) (ds : SparseDataset F)
    (before after : List F) : Prop :=
  (∀ row ∈ ds.data, ∀ e ∈ row, ∃ x, s.lrModel.weights[e.1.toInt.toNat]? = some x ∧
      after[e.1.toInt.toNat]? = some (s.optMethod.editWeight x)) ∧
    ∀ k, (∀ row ∈ ds.data, ∀ e ∈ row, e.1.toInt.toNat ≠ k) → after[k]? = before[k]?

variable [DecidableEq B] [Zero F] [One F] [Add F] [Sub F] [Mul F] [Div F] [FloatOps F]

theorem minibatch_weights_fetched (w : Wire B F) (worker : Worker B) (s : Server B F) (ds : SparseDataset F)
    (m : SparseLRModel F) (config : Configuration F) (started : serverModelSize config = .ok s.lrModel.size)
    (some_entry : 1 ≤ ds.data.flatten.length) (few : ds.data.flatten.length ≤ 262143)
    (inside : ∀ row ∈ ds.data, ∀ e ∈ row, 0 ≤ e.1.toInt ∧ e.1.toInt < 2 ^ config.modelBits)
    (reserved : 2 ^ config.modelBits ≤ m.weightsSparse.length) :
    ∃ body reply cells, body.length ≤ maxMsgSize ∧
      Talks (getLrSparseModelInplace w ds m config) reply
        (w.u32.put PsOp.getLrSparseModel.code ++ (w.u32.put (UInt32.ofNat body.length) ++ body))
        { m with isSparse := true, weightsSparse := cells } ∧
      Talks (gradientF w worker s)
        (w.u32.put PsOp.getLrSparseModel.code ++ (w.u32.put (UInt32.ofNat body.length) ++ body)) reply { server := s } ∧
      Fetched s ds m.weightsSparse cells := by
  obtain ⟨sparse, size⟩ := serverModelSize_ok started
  have length : (features ds).length = ds.data.flatten.length := List.length_map _
  have below : ∀ i ∈ features ds, i.toNat < 2 ^ config.modelBits := by
    intro i member
    obtain ⟨row, listed, e, there, rfl⟩ := mem_features.mp member
    obtain ⟨natural, bound⟩ := inside row listed e there
    rw [Words.toNat_toUInt32 natural]
    exact Words.toNat_lt_two_pow natural bound
  obtain ⟨weight, known⟩ : ∃ weight : UInt32 → F, ∀ i ∈ features ds, s.lrModel.weights[i.toNat]? = some (weight i) := by
    refine ⟨fun i => s.lrModel.weights[i.toNat]?.getD 0, ?_⟩
    intro i member
    have room : i.toNat < s.lrModel.weights.length := by
      have := below i member
      rw [SparseLRModel.size] at size
      omega
    dsimp only
    rw [List.getElem?_eq_getElem room, Option.getD_some]
  have some_index : features ds ≠ [] := List.length_pos_iff.mp (by omega)
  have serves := sparseWeights_decodes (w := w) known (by omega)
  obtain ⟨cells, loads, stored, others⟩ := loadSerializedSparse_gives (w := w) m sparse reserved some_index (by omega)
    below fun i => s.optMethod.editWeight (weight i)
  refine ⟨request w (features ds), ((features ds).map fun i => s.optMethod.editWeight (weight i)).flatMap w.feature.put,
    cells, ?_, ?_, ?_, ?_, ?_⟩
  · rw [request_length, maxMsgSize]
    omega
  · exact getLrSparseModelInplace_asks some_index (by omega) (by simp) loads
  · apply gradientF_read worker s rfl
    apply bodyRequest_talks
    · rw [request_length]
      omega
    · rw [request_length, threadBufferSize]
      omega
    · exact serves _
    · exact .say_last _ (.pure _)
  · intro row listed e there
    have member : e.1.toUInt32 ∈ features ds := mem_features.mpr ⟨row, listed, e, there, rfl⟩
    rw [← Words.toNat_toUInt32 (inside row listed e there).1]
    exact ⟨_, known _ member, stored _ member⟩
  · intro k other
    apply others k
    intro i member
    obtain ⟨row, listed, e, there, rfl⟩ := mem_features.mp member
    rw [Words.toNat_toUInt32 (inside row listed e there).1]
    exact other row listed e there

/-- A feature that occurs twice in a minibatch, and one that occurs in no row of it. -/
theorem minibatch_weights_fetched_twice :
    ∃ request reply cells, Talks (getLrSparseModelInplace Wire.littleEndian ⟨[[(1, 0)], [(1, 0)]], [1, 0]⟩
        { weights := [], weightsHist := [], weightsSparse := [7, 7] }
        { learningRate := 0, modelBits := 1, minibatchSize := 2, epsilon := 0, gradThreshold := 0 }) reply request
        { weights := [], weightsHist := [], isSparse := true, weightsSparse := cells } ∧
      Talks (gradientF Wire.littleEndian (Worker.fresh Wire.littleEndian) (Server.start 3 0 0 (.sgd 0) 0)) request reply
        { server := Server.start 3 0 0 (.sgd 0) 0 } ∧ cells[0]? = some 7 ∧ cells[1]? = some 0 := by
  have inside : ∀ e ∈ [((1 : Int32), (0 : UInt32))], 0 ≤ e.1.toInt ∧ e.1.toInt < 2 ^ 1 :=
    List.forall_mem_singleton.mpr (by decide)
  have other : ∀ e ∈ [((1 : Int32), (0 : UInt32))], e.1.toInt.toNat ≠ 0 := List.forall_mem_singleton.mpr (by decide)
  obtain ⟨body, reply, cells, _, asks, serves, each, others⟩ := minibatch_weights_fetched Wire.littleEndian
    (Worker.fresh Wire.littleEndian) (Server.start 3 0 0 (.sgd 0) 0) ⟨[[(1, 0)], [(1, 0)]], [1, 0]⟩
    { weights := [], weightsHist := [], weightsSparse := [7, 7] }
    { learningRate := 0, modelBits := 1, minibatchSize := 2, epsilon := 0, gradThreshold := 0 } (by decide) (by decide)
    (by decide) (List.forall_mem_cons.mpr ⟨inside, List.forall_mem_singleton.mpr inside⟩) (by decide)
  obtain ⟨x, weight, fetched⟩ := each _ List.mem_cons_self _ List.mem_cons_self
  cases weight
  exact ⟨_, reply, cells, asks, serves,
    others 0 (List.forall_mem_cons.mpr ⟨other, List.forall_mem_singleton.mpr other⟩), fetched⟩

end Minibatch

section WholeModel
variable {w : Wire B F}

theorem loadSerialized_few {own loaded : SparseLRModel F} {memory rest : List B}
    (done : SparseLRModel.loadSerialized w own memory = .ok (loaded, rest)) : loaded.weights.length < 10000000 := by
  obtain ⟨count, mid, _, done⟩ := ok_of_bind done
  obtain ⟨_, mid, checked, done⟩ := ok_of_bind done
  obtain ⟨weights, mid, read, done⟩ := ok_of_bind done
  cases done
  have length := (rounds_ok (P := fun _ => True) (fun _ _ _ _ _ => trivial) read).1
  by_cases few : 0 < count.toInt ∧ count.toInt < 10000000
  · dsimp only
    omega
  · rw [check_neg few] at checked
    cases checked

variable [Zero F] [OfScientific F]

theorem getFullModel_few {reply message : List B} {fetched : SparseLRModel F}
    (asks : Talks (getFullModel w false) reply message (.inr fetched)) : fetched.weights.length < 10000000 := by
  obtain ⟨_, _, asks⟩ := asks.of_send
  obtain ⟨_, asks⟩ := asks.of_recv (by decide)
  change Talks (if _ then _ else _) _ _ _ at asks
  split at asks
  next => exact absurd asks Talks.not_fail
  next natural =>
    rcases Nat.eq_zero_or_pos ((w.int.get (reply.take 4)).toInt.toNat * 4) with zero | positive
    · rw [zero] at asks
      exact absurd asks.of_recv_none Talks.not_fail
    · obtain ⟨_, asks⟩ := asks.of_recv positive
      change Talks (Prog.compute _ >>= _) _ _ _ at asks
      cases loads : SparseLRModel.loadSerialized w (SparseLRModel.ofSize 0)
        (w.int.put (w.int.get (reply.take 4)) ++ (reply.drop 4).take ((w.int.get (reply.take 4)).toInt.toNat * 4)) with
      | error fault =>
        rw [loads] at asks
        exact absurd asks Talks.not_fail
      | ok loaded =>
        rw [loads] at asks
        obtain ⟨_, _, same⟩ := Talks.of_done asks
        cases same
        exact loadSerialized_few loads

theorem getFullModel_asks {m : SparseLRModel F} (some_weight : 0 < m.size) (few : m.size < 10000000) :
    Talks (getFullModel w false) (m.serializeTo w) (w.u32.put PsOp.getLrFullModel.code)
      (.inr { (SparseLRModel.ofSize 0 : SparseLRModel F) with weights := m.weights }) := by
  have count : (toInt m.weights.length).toInt = m.size := LRSparseGradient.toInt_toInt (Nat.lt_trans few (by decide))
  have loads := SparseLRModel.loadSerialized_serializeTo w m (SparseLRModel.ofSize 0) some_weight few []
  rw [List.append_nil] at loads
  apply Talks.say_last
  apply Talks.read (w.int.put_length _) (by decide)
  dsimp only
  rw [w.int.get_put, count, if_neg (by omega), Int.toNat_natCast]
  apply Talks.read_last
  · rw [w.feature.flatMap_put_length, SparseLRModel.size, Nat.mul_comm]
  · omega
  · exact .work loads (.pure _)

end WholeModel

section WholeModelServed
variable [DecidableEq B] [Zero F] [One F] [Add F] [Sub F] [Mul F] [Div F] [FloatOps F] {w : Wire B F}

theorem processGetLrFullModel_answers {worker : Worker B} {s : Server B F}
    (fits : s.lrModel.getSerializedSize ≤ threadBufferSize) :
    Talks (gradientF w worker s) (w.u32.put PsOp.getLrFullModel.code) (s.lrModel.serializeTo w) { server := s } := by
  have small : s.lrModel.getSerializedSize < 2 ^ 32 := Nat.lt_of_le_of_lt fits (by decide)
  have size : (UInt32.ofNat s.lrModel.getSerializedSize).toNat = s.lrModel.getSerializedSize :=
    UInt32.toNat_ofNat_of_lt' small
  have length : (s.lrModel.serializeTo w).length = s.lrModel.getSerializedSize := s.lrModel.serializeTo_length w
  have handles : Talks (processGetLrFullModel w worker s) [] (s.lrModel.serializeTo w) { server := s } := by
    unfold processGetLrFullModel
    dsimp only
    rw [size, length, worker.sizes.1, if_neg (by omega), if_neg (by omega), overwrite, List.take_left' length]
    exact .say_last _ (.pure _)
  have served : operationToF w .getLrFullModel = some (processGetLrFullModel w) := rfl
  have whole := gradientF_read worker s served handles
  rwa [List.append_nil] at whole

variable [OfScientific F]

def FullModelFetched (w : Wire B F) (worker : Worker B) (s : Server B F) : Prop :=
  ∃ fetched : SparseLRModel F, Meets (getFullModel w false) (gradientF w worker s) (.inr fetched) { server := s } ∧
    fetched.weights = s.lrModel.weights

theorem fullModelFetched_iff {worker : Worker B} {s : Server B F} (some_weight : 0 < s.lrModel.size)
    (fits : s.lrModel.getSerializedSize ≤ threadBufferSize) :
    FullModelFetched w worker s ↔ s.lrModel.size < 10000000 := by
  constructor
  · intro ⟨fetched, ⟨message, reply, asks, _⟩, same⟩
    rw [SparseLRModel.size, ← same]
    exact getFullModel_few asks
  · intro few
    exact ⟨_, ⟨_, _, getFullModel_asks some_weight few, processGetLrFullModel_answers fits⟩, rfl⟩

/-- Of the models that fit the server's buffer, that of 24 bits is refused by the client. -/
theorem full_model_fetched_iff (w : Wire B F) (worker : Worker B) (s : Server B F) (modelBits : Nat)
    (size : s.lrModel.size = 2 ^ modelBits + 1) (fits : s.lrModel.getSerializedSize ≤ threadBufferSize) :
    FullModelFetched w worker s ↔ modelBits ≤ 23 := by
  have some_weight : 0 < s.lrModel.size := by
    rw [size]
    exact Nat.succ_pos _
  rw [fullModelFetched_iff some_weight fits, size]
  constructor
  · intro few
    by_contra more
    have large : 2 ^ 24 ≤ 2 ^ modelBits := Nat.pow_le_pow_right (by decide) (by omega)
    omega
  · intro few
    have small : 2 ^ modelBits ≤ 2 ^ 23 := Nat.pow_le_pow_right (by decide) few
    omega

end WholeModelServed

theorem start_size [Zero F] (modelSize users items : Nat) (optMethod : OptimizationMethod F) (globalBias : F) :
    (Server.start (B := B) modelSize users items optMethod globalBias).lrModel.size = modelSize := List.length_replicate

theorem full_model_fetched_largest :
    FullModelFetched Exact.wire (Worker.fresh Exact.wire) (Server.start (2 ^ 23 + 1) 0 0 (.sgd 0) 0) :=
  (full_model_fetched_iff Exact.wire (Worker.fresh Exact.wire) (Server.start (2 ^ 23 + 1) 0 0 (.sgd 0) 0) 23
    (start_size ..) (by rw [SparseLRModel.getSerializedSize, start_size]; decide)).mpr (by decide)

theorem full_model_refused :
    (Server.start (B := ℚ) (2 ^ 24 + 1) 0 0 (.sgd 0) (0 : ℚ)).lrModel.getSerializedSize ≤ threadBufferSize ∧
      ¬ FullModelFetched Exact.wire (Worker.fresh Exact.wire) (Server.start (2 ^ 24 + 1) 0 0 (.sgd 0) 0) := by
  constructor
  · rw [SparseLRModel.getSerializedSize, start_size]
    decide
  · rintro ⟨fetched, ⟨_, _, asks, _⟩, same⟩
    have few := getFullModel_few asks
    have size : (Server.start (B := ℚ) (2 ^ 24 + 1) 0 0 (.sgd 0) (0 : ℚ)).lrModel.weights.length = 2 ^ 24 + 1 := start_size ..
    rw [same, size] at few
    exact absurd few (by decide)

end LRFetch

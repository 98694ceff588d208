import Cirrus.Exact
import Cirrus.MFFetch

/-!
The size of the reply that brings a worker its part of the factorization. The
server writes it into a buffer of a fixed size, for which the request, that says
how many users and lists the items, has no bound.
-/
namespace MFReply
open Gradients SparseLR MF SparseMFModel ServerTask ServerInterface Stream Stream.Prog Decoder Loops
variable {B F : Type}

def entrySize : Nat := 4 + (numFactors + 1) * 4

/-- `to_send_size`, which is computed in 64 bits and kept in 32. -/
def toSendSize (minibatchSize kItems : UInt32) : UInt32 :=
  UInt32.ofNat (minibatchSize.toNat * entrySize + kItems.toNat * entrySize)

def request (w : Wire B F) (ids : List UInt32) (userBase minibatchSize : UInt32) : List B :=
  w.u32.put (UInt32.ofNat ids.length) ++ (w.u32.put userBase ++ (w.u32.put minibatchSize ++
    (w.u32.put magicNumber ++ ids.flatMap w.u32.put)))

theorem request_length (w : Wire B F) (ids : List UInt32) (userBase minibatchSize : UInt32) :
    (request w ids userBase minibatchSize).length = 16 + 4 * ids.length := by
  simp only [request, List.length_append, w.u32.put_length, w.u32.flatMap_put_length]
  omega

section Listing

theorem itemIds_length {ds : SparseDataset F} {ids : List UInt32} (distinct : ids.Nodup)
    (members : ∀ id, id ∈ ids ↔ ∃ row ∈ ds.data, ∃ e ∈ row, id = e.1.toUInt32) :
    ids.length = (features ds).dedup.length := by
  apply List.Perm.length_eq
  rw [List.perm_ext_iff_of_nodup distinct (List.nodup_dedup _)]
  intro id
  rw [members, List.mem_dedup, mem_features]

end Listing

section Writing
variable {w : Wire B F}

theorem putModel_length {e : UInt32 × F × List F} (full : e.2.2.length = numFactors) : (putModel w e).length = entrySize := by
  rw [putModel, List.length_append, List.length_append, w.u32.put_length, w.feature.put_length,
    w.feature.flatMap_put_length, full]
  rfl

theorem entries_length {entries : List (UInt32 × F × List F)} (full : ∀ e ∈ entries, e.2.2.length = numFactors) :
    (entries.flatMap (putModel w)).length = entries.length * entrySize := by
  induction entries with
  | nil => exact (Nat.zero_mul _).symm
  | cons e entries ih =>
    rw [List.forall_mem_cons] at full
    rw [List.flatMap_cons, List.length_append, putModel_length full.1, ih full.2, List.length_cons, Nat.succ_mul, Nat.add_comm]

theorem denseUser_full {m : MFModel F} {i : UInt32} {e : UInt32 × F × List F} (done : denseUser m i = .ok e) :
    e.2.2.length = numFactors := by
  obtain ⟨bias, _, done⟩ := ok_of_bind done
  obtain ⟨weights, read, done⟩ := ok_of_bind done
  cases done
  exact (mapM_ends read).length_eq.symm.trans List.length_range

theorem denseItem_full {m : MFModel F} {i : UInt32} {e : UInt32 × F × List F} (done : denseItem m i = .ok e) :
    e.2.2.length = numFactors := by
  obtain ⟨bias, _, done⟩ := ok_of_bind done
  obtain ⟨weights, read, done⟩ := ok_of_bind done
  cases done
  exact (mapM_ends read).length_eq.symm.trans List.length_range

theorem serializeFromDense_length {m : MFModel F} {base count kItems : UInt32} {itemData written : List B}
    (done : serializeFromDense w m base count kItems itemData = .ok written) :
    written.length = (userRange base count).length * entrySize + kItems.toNat * entrySize := by
  obtain ⟨users, readUsers, done⟩ := ok_of_bind done
  obtain ⟨⟨itemIds, rest⟩, readIds, done⟩ := ok_of_bind done
  obtain ⟨items, readItems, done⟩ := ok_of_bind done
  cases done
  have userCount := (mapM_ends readUsers).length_eq
  have itemCount := (mapM_ends readItems).length_eq
  have usersFull : ∀ e ∈ users, e.2.2.length = numFactors := by
    intro e member
    obtain ⟨i, _, made⟩ := (mem_of_mapM readUsers e).mp member
    exact denseUser_full made
  have itemsFull : ∀ e ∈ items, e.2.2.length = numFactors := by
    intro e member
    obtain ⟨i, _, made⟩ := (mem_of_mapM readItems e).mp member
    exact denseItem_full made
  have idCount := (rounds_ok (P := fun _ => True) (fun _ _ _ _ _ => trivial) readIds).1
  rw [List.length_append, entries_length usersFull, entries_length itemsFull, ← userCount, ← itemCount, idCount]

theorem userRange_wraps {base count : UInt32} (wraps : 2 ^ 32 ≤ base.toNat + count.toNat) : userRange base count = [] := by
  have below := base.toNat_lt
  have few := count.toNat_lt
  have wrapped : (base + count).toNat = base.toNat + count.toNat - 2 ^ 32 := by
    rw [UInt32.toNat_add, Nat.mod_eq_sub_mod wraps, Nat.mod_eq_of_lt (by omega)]
  rw [userRange, wrapped, show base.toNat + count.toNat - 2 ^ 32 - base.toNat = 0 by omega]
  rfl

end Writing

section Handling
variable {w : Wire B F}

theorem run_readOr {A α : Type} {size : Nat} (positive : 0 < size) (c : Codec B α size) (first a : α) (f : α → Prog B A)
    (rest : List B) : run (readOr c first >>= f) (c.put a ++ rest) = run (f a) rest := by
  have same : (readOr c first >>= f) = (readAll size >>= fun cells => f (cells.elim first c.get)) := rfl
  rw [same, run_read (c.put_length a) positive, Option.elim_some, c.get_put]

theorem processGetMfSparseModel_refuses (worker : Worker B) (s : Server B F) (size : UInt32) {ids : List UInt32}
    (few : ids.length < 2 ^ 32) {base count : UInt32} (nothing : ids = [] ∨ count = 0) :
    ∃ text, (run (processGetMfSparseModel w worker s) (w.u32.put size ++ request w ids base count)).result =
      some (.error (.assertion text)) := by
  have four : 0 < 4 := by decide
  unfold processGetMfSparseModel request
  rw [run_read (w.u32.put_length size) four]
  dsimp only
  rw [run_readOr four, run_readOr four, run_readOr four, run_readOr four]
  rcases Decidable.em (ids = []) with rfl | some_item
  · exact ⟨_, rfl⟩
  · have none : count = 0 := nothing.resolve_left some_item
    have items : 0 < UInt32.ofNat ids.length := by
      rw [UInt32.lt_iff_toNat_lt, UInt32.toNat_ofNat_of_lt' few]
      exact List.length_pos_iff.mpr some_item
    rw [none, if_neg (not_not_intro items)]
    exact ⟨_, rfl⟩

theorem serializeFromDense_front (m : MFModel F) {base count : UInt32} {ids : List UInt32} (few : ids.length < 2 ^ 32)
    (more : List B) : serializeFromDense w m base count (UInt32.ofNat ids.length) (ids.flatMap w.u32.put ++ more) =
      serializeFromDense w m base count (UInt32.ofNat ids.length) (ids.flatMap w.u32.put) := by
  have decodes := Decodes.rounds 0 ids fun _ id _ _ => Decodes.load w.u32 id
  have alone := decodes []
  rw [List.append_nil] at alone
  have length : (UInt32.ofNat ids.length).toNat = ids.length := UInt32.toNat_ofNat_of_lt' few
  unfold serializeFromDense
  rw [length, decodes more, alone]
  rfl

theorem processGetMfSparseModel_answers (worker : Worker B) (s : Server B F) (size : UInt32) {ids : List UInt32}
    (some_item : ids ≠ []) (few : ids.length ≤ itemSlots) {base count : UInt32} (some_user : count ≠ 0) {written : List B}
    (done : serializeFromDense w s.mfModel base count (UInt32.ofNat ids.length) (ids.flatMap w.u32.put) = .ok written)
    (sized : (toSendSize count (UInt32.ofNat ids.length)).toNat = written.length)
    (fits : written.length ≤ threadMsgBufferSize) :
    Talks (processGetMfSparseModel w worker s) (w.u32.put size ++ request w ids base count)
      (w.u32.put (toSendSize count (UInt32.ofNat ids.length)) ++ written) { server := s } := by
  have four : 0 < 4 := by decide
  have count_ids : (UInt32.ofNat ids.length).toNat = ids.length :=
    UInt32.toNat_ofNat_of_lt' (Nat.lt_of_le_of_lt few (by decide))
  have length : (ids.flatMap w.u32.put).length = ids.length * 4 := by
    rw [w.u32.flatMap_put_length, Nat.mul_comm]
  have items : 0 < UInt32.ofNat ids.length := by
    rw [UInt32.lt_iff_toNat_lt, count_ids]
    exact List.length_pos_iff.mpr some_item
  have positive : 0 < (ids.flatMap w.u32.put).length := by
    rw [length]
    have := List.length_pos_iff.mpr some_item
    omega
  have users : 0 < count := UInt32.pos_iff_ne_zero.mpr some_user
  have front := (serializeFromDense_front s.mfModel (Nat.lt_of_le_of_lt few (by decide))
    (worker.threadBuffer.drop (ids.flatMap w.u32.put).length)).trans done
  intro rest
  unfold processGetMfSparseModel request
  simp only [List.append_assoc]
  rw [run_read (w.u32.put_length size) four]
  dsimp only
  rw [run_readOr four, run_readOr four, run_readOr four, run_readOr four, if_neg (not_not_intro items),
    if_neg (not_not_intro users), if_neg (not_not_intro rfl), worker.sizes.1, count_ids, ← length,
    if_neg (by rw [length, threadBufferSize]; unfold itemSlots at few; omega), run_read rfl positive]
  rw [Option.getD_some, overwrite, front]
  have computed : UInt32.ofNat (count.toNat * (4 + (numFactors + 1) * 4) + ids.length * (4 + (numFactors + 1) * 4)) =
      toSendSize count (UInt32.ofNat ids.length) := by
    rw [toSendSize, count_ids]
    rfl
  change run (if _ ∨ _ then _ else _) rest = _
  rw [computed, sized, worker.sizes.2, if_neg (by omega), overwrite, List.take_left' rfl]
  have sends : Talks (do sendAll written; returns s) [] written { server := s } := .say_last _ (.pure _)
  exact Talks.say (f := fun _ => do sendAll written; returns s) _ sends rest

end Handling

section Client
variable [Zero F] [OfScientific F] {w : Wire B F}

theorem getSparseMfModel_sends {ds : SparseDataset F} {ids : List UInt32} (listed : itemIds ds = .ok ids)
    (few : ids.length ≤ itemSlots) (base count : UInt32) :
    (run (getSparseMfModel w ds base count) []).sent = w.u32.put PsOp.getMfSparseModel.code ++
      (w.u32.put (UInt32.ofNat (request w ids base count).length) ++ request w ids base count) := by
  have size : 4 * 4 + 4 * UInt32.ofNat ids.length = UInt32.ofNat (request w ids base count).length := by
    rw [request_length, UInt32.ofNat_add, UInt32.ofNat_mul]
    rfl
  have room : ¬ maxMsgSize < (request w ids base count).length := by
    rw [request_length, maxMsgSize]
    unfold itemSlots at few
    omega
  unfold getSparseMfModel
  rw [listed]
  change (run (if maxMsgSize < (request w ids base count).length then _ else _) []).sent = _
  rw [if_neg room, size]
  change _ ++ (_ ++ (request w ids base count ++ [])) = _
  rw [List.append_nil]

end Client

/-- The bytes written are those counted, without a carry out of 32 bits, and fit the buffer. -/
def Sized (w : Wire B F) (m : MFModel F) (ids : List UInt32) (base count : UInt32) : Prop :=
  ∃ written, serializeFromDense w m base count (UInt32.ofNat ids.length) (ids.flatMap w.u32.put) = .ok written ∧
    written.length = count.toNat * entrySize + ids.length * entrySize ∧
    (toSendSize count (UInt32.ofNat ids.length)).toNat = written.length ∧ written.length ≤ threadMsgBufferSize

theorem sized_iff [Zero F] {w : Wire B F} {m : MFModel F} (formed : m.WellFormed) {ids : List UInt32} {base count : UInt32}
    (users : base.toNat + count.toNat ≤ m.nusers.toNat) (some_user : count ≠ 0) (few : ids.length ≤ itemSlots)
    (items : ∀ id ∈ ids, id.toNat < m.nitems.toNat) :
    Sized w m ids base count ↔ base.toNat + count.toNat < 2 ^ 32 ∧
      (count.toNat + ids.length) * entrySize ≤ threadMsgBufferSize := by
  have small_ids : ids.length < 2 ^ 32 := Nat.lt_of_le_of_lt few (by decide)
  have count_ids : (UInt32.ofNat ids.length).toNat = ids.length := UInt32.toNat_ofNat_of_lt' small_ids
  constructor
  · intro ⟨written, wrote, length, _, fits⟩
    rw [Nat.add_mul, ← length]
    refine ⟨?_, fits⟩
    by_contra wraps
    have counted := serializeFromDense_length wrote
    rw [userRange_wraps (by omega), count_ids, length, List.length_nil] at counted
    have positive : 0 < count.toNat := UInt32.pos_iff_ne_zero.mpr some_user
    have entries : 0 < count.toNat * entrySize := Nat.mul_pos positive (by decide)
    omega
  · intro ⟨small, fits⟩
    have done := serializeFromDense_withParams (p := m.params) w formed users small small_ids items
    rw [formed.withParams_params] at done
    have length := serializeFromDense_length done
    rw [userRange_length small, count_ids] at length
    have bound : count.toNat * entrySize + ids.length * entrySize ≤ threadMsgBufferSize := by
      rwa [← Nat.add_mul]
    refine ⟨_, done, length, ?_, length ▸ bound⟩
    rw [length, toSendSize, count_ids]
    exact UInt32.toNat_ofNat_of_lt' (Nat.lt_of_le_of_lt bound (by decide))

section Fits
variable [DecidableEq B] [Zero F] [One F] [Add F] [Sub F] [Mul F] [Div F] [FloatOps F] [OfScientific F]

/-- The client's request fits its buffer, and the server's reply its own, so that nothing undefined happens. -/
def ReplyFits (w : Wire B F) (worker : Worker B) (s : Server B F) (ds : SparseDataset F) (base count : UInt32) : Prop :=
  ∃ ids body, itemIds ds = .ok ids ∧ body.length ≤ maxMsgSize ∧
    (run (getSparseMfModel w ds base count) []).sent =
      w.u32.put PsOp.getMfSparseModel.code ++ (w.u32.put (UInt32.ofNat body.length) ++ body) ∧
    (ids ≠ [] → count ≠ 0 → Sized w s.mfModel ids base count) ∧
    (run (gradientF w worker s) (w.u32.put PsOp.getMfSparseModel.code ++
      (w.u32.put (UInt32.ofNat body.length) ++ body))).result ≠ some (.error .undefined)

/-- The number of users in a request has no bound, and the buffer of the reply has one. -/
theorem reply_fits_iff (w : Wire B F) (worker : Worker B) (s : Server B F) (formed : s.mfModel.WellFormed)
    (ds : SparseDataset F) (base count : UInt32) (users : base.toNat + count.toNat ≤ s.mfModel.nusers.toNat)
    (items : ∀ row ∈ ds.data, ∀ e ∈ row, cell e.1 < s.mfModel.nitems.toNat ∧ cell e.1 < itemSlots) :
    ReplyFits w worker s ds base count ↔ features ds = [] ∨ count = 0 ∨
      (base.toNat + count.toNat < 2 ^ 32 ∧
        (count.toNat + (features ds).dedup.length) * entrySize ≤ threadMsgBufferSize) := by
  obtain ⟨ids, listed, distinct, members, inside⟩ := itemIds_gives fun row member e there => (items row member e there).2
  have few : ids.length ≤ itemSlots := slots_length distinct inside
  have length : ids.length = (features ds).dedup.length := itemIds_length distinct members
  have nothing : ids = [] ↔ features ds = [] := by
    rw [← List.length_eq_zero_iff, length, List.length_eq_zero_iff, List.dedup_eq_nil]
  have known : ∀ id ∈ ids, id.toNat < s.mfModel.nitems.toNat := by
    intro id member
    obtain ⟨row, there, e, here, rfl⟩ := (members id).mp member
    obtain ⟨bound, slot⟩ := items row there e here
    rwa [narrow_cell (Nat.lt_trans slot (by decide))]
  rw [← nothing, ← length]
  constructor
  · intro ⟨ids', _, listed', _, _, sized, _⟩
    rw [listed] at listed'
    cases listed'
    by_cases none : ids = []
    · exact .inl none
    · by_cases zero : count = 0
      · exact .inr (.inl zero)
      · exact .inr (.inr ((sized_iff formed users zero few known).mp (sized none zero)))
  · intro holds
    refine ⟨ids, request w ids base count, listed, ?_, getSparseMfModel_sends listed few base count, ?_, ?_⟩
    · rw [request_length, maxMsgSize]
      unfold itemSlots at few
      omega
    · intro some_item some_user
      rcases holds with none | zero | fits
      · exact absurd none some_item
      · exact absurd zero some_user
      · exact (sized_iff formed users some_user few known).mpr fits
    · have served : operationToF w .getMfSparseModel = some (processGetMfSparseModel w) := rfl
      rw [gradientF_run worker s served]
      by_cases none : ids = [] ∨ count = 0
      · obtain ⟨text, refused⟩ := processGetMfSparseModel_refuses (w := w) worker s
          (UInt32.ofNat (request w ids base count).length) (Nat.lt_of_le_of_lt few (by decide)) none
        rw [refused]
        nofun
      · rw [not_or] at none
        have fits := (holds.resolve_left none.1).resolve_left none.2
        obtain ⟨written, done, _, sized, room⟩ := (sized_iff formed users none.2 few known).mpr fits
        have answers := processGetMfSparseModel_answers worker s (UInt32.ofNat (request w ids base count).length) none.1 few
          none.2 done sized room []
        rw [List.append_nil] at answers
        rw [answers]
        nofun

end Fits

def oneItem (users : Nat) : Server ℚ ℚ := Server.start 1 users 1 (.sgd 0) 0

theorem oneItem_formed {users : Nat} (small : users * numFactors ≤ MFModel.maxSize) : (oneItem users).mfModel.WellFormed := by
  have fits : users < 2 ^ 64 := by
    unfold numFactors MFModel.maxSize at small
    omega
  have count : (UInt64.ofNat users).toNat = users := UInt64.toNat_ofNat_of_lt' fits
  constructor
  · rfl
  · exact List.length_replicate.trans count.symm
  · rfl
  · exact List.length_replicate.trans (congrArg (· * numFactors) count.symm)
  · rfl
  · exact (congrArg (· * numFactors) count).trans_le small
  · exact show 1 * numFactors ≤ MFModel.maxSize by decide

theorem reply_fits_one : ReplyFits Exact.wire (Worker.fresh Exact.wire) (oneItem 20832) ⟨[[(0, 5)]], [0]⟩ 0 20832 :=
  (reply_fits_iff Exact.wire (Worker.fresh Exact.wire) (oneItem 20832) (oneItem_formed (by decide)) ⟨[[(0, 5)]], [0]⟩ 0 20832
    (by decide) (by decide)).mpr (by decide)

/-- One user more, and the reply is longer than its buffer. -/
theorem reply_overruns : (20833 : UInt32).toNat ≤ (oneItem 20833).mfModel.nusers.toNat ∧
    ¬ ReplyFits Exact.wire (Worker.fresh Exact.wire) (oneItem 20833) ⟨[[(0, 5)]], [0]⟩ 0 20833 := by
  refine ⟨by decide, ?_⟩
  intro ⟨ids, _, listed, _, _, sized, _⟩
  obtain rfl : [0] = ids := Except.ok.inj listed
  obtain ⟨written, _, length, _, fits⟩ := sized (by decide) (by decide)
  rw [length] at fits
  exact absurd fits (by decide)

end MFReply

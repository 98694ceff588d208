import Cirrus.ServerTask

/-!
The buffer that a worker thread reads the body of every request into. Its cells
past the end of a body are what earlier requests left there. Here is which of
the requests that are decoded from it depend on these cells.
-/
namespace Leakage
open Gradients SparseLR MF ServerTask Stream Stream.Prog Decoder
variable {B F : Type}

inductive BodyOp where
  | sendLrGradient | sendMfGradient | getLrSparseModel
  deriving DecidableEq, Repr

def BodyOp.op : BodyOp → PsOp
  | .sendLrGradient => .sendLrGradient
  | .sendMfGradient => .sendMfGradient
  | .getLrSparseModel => .getLrSparseModel

structure Request (B : Type) where
  op : BodyOp
  body : List B
  small : body.length < 2 ^ 32

def message (w : Wire B F) (r : Request B) : List B :=
  w.u32.put r.op.op.code ++ (w.u32.put (UInt32.ofNat r.body.length) ++ r.body)

def word (w : Wire B F) (body : List B) (i : Nat) : UInt32 := w.u32.get ((body.drop i).take 4)

section Gradient
variable (w : Wire B F) (body : List B)

def lrCount : Int := (word w body 4).toInt32.toInt

structure LrFits : Prop where
  header : 8 ≤ body.length
  weights : 0 < lrCount w body ∧ lrCount w body < 10000000 →
    8 + 8 * (lrCount w body).toNat ≤ body.length

structure MfFits : Prop where
  magic : 4 ≤ body.length
  sizes : word w body 0 = magicNumber → 12 ≤ body.length
  values : word w body 0 = magicNumber →
    16 + 52 * ((word w body 4).toNat + (word w body 8).toNat) ≤ body.length

structure GetFits : Prop where
  header : 4 ≤ body.length
  few : (word w body 0).toNat * 4 % 2 ^ 32 < 2 ^ 20 → (word w body 0).toNat < 2 ^ 18
  entries : (word w body 0).toNat * 4 % 2 ^ 32 < 2 ^ 20 →
    4 + 4 * (word w body 0).toNat ≤ body.length

variable {w body}

theorem lr_inside (fits : LrFits w body) : Inside (LRSparseGradient.loadSerialized w) body := by
  have header := fits.header
  apply Inside.load_bind w.int (by omega)
  apply Inside.load_bind w.int (by rw [List.length_drop]; omega)
  apply Inside.check_bind
  intro legal
  have weights := fits.weights legal
  apply Inside.step (Within.rounds (LRSparseGradient.loadWeight_within w _) 0 _)
  · rw [List.length_drop, List.length_drop]
    change 8 * (lrCount w body).toNat ≤ _
    omega
  · exact fun _ _ => fun _ => rfl

theorem lr_weights_defined (version : UInt64) (count : Nat) (memory : List B) :
    Defined (do
      let weights ← rounds (LRSparseGradient.loadWeight w (count * (4 + 4) + 2 * 4)) 0 count
      pure ({ weights := weights, version := version } : LRSparseGradient F)) memory ↔
      8 * count ≤ memory.length := by
  have reads := Reads.rounds 0 count fun k below =>
    LRSparseGradient.loadWeight_reads w (count * (4 + 4) + 2 * 4) k (by omega)
  rw [reads.defined_bind fun weights => iff_true_intro (defined_pure _ _), and_true]

theorem lr_defined : Defined (LRSparseGradient.loadSerialized w) body ↔ LrFits w body := by
  rw [LRSparseGradient.loadSerialized, defined_load_bind, defined_load_bind,
    defined_check_bind (by decide)]
  simp only [lr_weights_defined, List.length_drop]
  constructor
  · intro ⟨first, second, rest⟩
    refine ⟨by omega, fun legal => ?_⟩
    have weights := rest legal
    change 8 * (lrCount w body).toNat ≤ _ at weights
    omega
  · intro fits
    have header := fits.header
    refine ⟨by omega, by omega, fun legal => ?_⟩
    have weights := fits.weights legal
    change 8 * (lrCount w body).toNat ≤ _
    omega

theorem mf_inside (fits : MfFits w body) : Inside (MFSparseGradient.loadSerialized w {}) body := by
  apply Inside.load_bind w.u32 fits.magic
  apply Inside.check_bind
  intro right
  have sizes := fits.sizes right
  have values := fits.values right
  apply Inside.load_bind w.u32 (by rw [List.length_drop]; omega)
  apply Inside.load_bind w.u32 (by rw [List.length_drop, List.length_drop]; omega)
  rw [List.drop_drop, List.drop_drop]
  have biases := fun n : UInt32 => Within.rounds (fun _ => MFSparseGradient.loadBias_within w) 0 n.toNat
  have weights := fun n : UInt32 =>
    Within.rounds (fun _ => MFSparseGradient.loadWeights_within w) 0 n.toNat
  change 16 + 52 * ((w.u32.get ((body.drop 4).take 4)).toNat +
    (w.u32.get ((body.drop (4 + 4)).take 4)).toNat) ≤ body.length at values
  apply Inside.step (biases _) (by rw [List.length_drop]; omega)
  intro userBiases _
  apply Inside.step (biases _) (by simp only [List.length_drop]; omega)
  intro itemBiases _
  apply Inside.step (weights _) (by simp only [List.length_drop, numFactors]; omega)
  intro userWeights _
  apply Inside.step (weights _) (by simp only [List.length_drop, numFactors]; omega)
  intro itemWeights _
  apply Inside.load_bind w.u32 (by simp only [List.length_drop, numFactors]; omega)
  apply Inside.check_bind
  exact fun _ _ => rfl

theorem mf_values_defined (users items : Nat) (memory : List B) :
    Defined (do
      let userBiases ← rounds (fun _ => MFSparseGradient.loadBias w) 0 users
      let itemBiases ← rounds (fun _ => MFSparseGradient.loadBias w) 0 items
      let userWeights ← rounds (fun _ => MFSparseGradient.loadWeights w) 0 users
      let itemWeights ← rounds (fun _ => MFSparseGradient.loadWeights w) 0 items
      let magicValue ← w.u32.load
      check (magicValue = MFSparseGradient.lastMagic) (.assertion "magic_value == 0x1338")
      pure
        ({ usersBiasGrad := MFSparseGradient.insertAll ∅ userBiases
           itemsBiasGrad := MFSparseGradient.insertAll ∅ itemBiases
           usersWeightsGrad := [] ++ userWeights
           itemsWeightsGrad := [] ++ itemWeights } : MFSparseGradient F)) memory ↔
      4 + 52 * (users + items) ≤ memory.length := by
  have biases := fun n : Nat => Reads.rounds 0 n fun _ _ => MFSparseGradient.loadBias_reads w
  have weights := fun n : Nat => Reads.rounds 0 n fun _ _ => MFSparseGradient.loadWeights_reads w
  refine Iff.trans ((biases users).defined_bind fun _ => (biases items).defined_bind fun _ =>
    (weights users).defined_bind fun _ => (weights items).defined_bind fun _ =>
    (Reads.load w.u32).defined_bind fun _ => iff_true_intro ?_) ?_
  · rw [defined_check_bind (by decide)]
    exact fun _ => defined_pure _ _
  · simp only [List.length_drop, numFactors, and_true]
    omega

theorem mf_defined : Defined (MFSparseGradient.loadSerialized w {}) body ↔ MfFits w body := by
  rw [MFSparseGradient.loadSerialized, defined_load_bind, defined_check_bind (by decide)]
  simp only [defined_load_bind, mf_values_defined, List.length_drop, List.drop_drop]
  constructor
  · intro ⟨magic, rest⟩
    refine ⟨magic, fun right => ?_, fun right => ?_⟩
    · have after := rest right
      omega
    · obtain ⟨first, second, values⟩ := rest right
      change 4 + 52 * ((word w body 4).toNat + (word w body 8).toNat) ≤ _ at values
      omega
  · intro fits
    refine ⟨fits.magic, fun right => ?_⟩
    have sizes := fits.sizes right
    have values := fits.values right
    refine ⟨by omega, by omega, ?_⟩
    change 4 + 52 * ((word w body 4).toNat + (word w body 8).toNat) ≤ _
    omega

end Gradient

theorem weight_found {s : Server B F} (whole : 2 ^ 32 ≤ s.lrModel.weights.length) (index : UInt32) :
    ∃ weight, s.lrModel.getNthWeight index.toNat = .ok weight := by
  have inside := Nat.lt_of_lt_of_le index.toNat_lt whole
  simp [SparseLRModel.getNthWeight, at', List.getElem?_eq_getElem inside]

section Weights
variable [Add F] [Mul F] {w : Wire B F} {body : List B}

theorem loadEntry_within (s : Server B F) (i : Nat) : Within (loadEntry w s i) 4 :=
  (Within.load w.u32).bind fun _ => (Within.lift _).bind fun weight =>
    (Within.check _ _).bind fun _ => .pure (s.optMethod.editWeight weight)

theorem to_send_size (n : UInt32) : (UInt32.ofNat (n.toNat * 4)).toNat = n.toNat * 4 % 2 ^ 32 :=
  UInt32.toNat_ofNat

theorem get_inside (s : Server B F) (fits : GetFits w body) : Inside (sparseWeights w s) body := by
  apply Inside.load_bind w.u32 fits.header
  apply Inside.check_bind
  intro legal
  rw [to_send_size] at legal
  have entries := fits.entries legal
  apply (Within.rounds (loadEntry_within s) 0 _).inside
  rw [List.length_drop]
  change 4 * (word w body 0).toNat ≤ _
  omega

theorem loadEntry_reads {s : Server B F} (whole : 2 ^ 32 ≤ s.lrModel.weights.length) {i : Nat}
    (room : i < 2 ^ 18) : Reads (loadEntry w s i) 4 := by
  rw [← Nat.add_zero 4]
  apply (Reads.load w.u32).bind
  intro entryIndex
  obtain ⟨weight, found⟩ := weight_found whole entryIndex
  intro memory
  rw [found, if_pos (Nat.zero_le _), bind_ok rfl, check_pos (by rw [dataToSendSize]; omega)]
  exact ⟨_, rfl⟩

theorem loadEntry_overflows {s : Server B F} (whole : 2 ^ 32 ≤ s.lrModel.weights.length)
    (memory : List B) : loadEntry w s (2 ^ 18) memory = .error .undefined := by
  rcases Nat.lt_or_ge memory.length 4 with short | fits
  · exact bind_error ((Reads.load w.u32).short short)
  · obtain ⟨weight, found⟩ := weight_found whole (w.u32.get (memory.take 4))
    rw [loadEntry, bind_ok (w.u32.load_enough fits), found, check_neg (by decide)]
    rfl

theorem get_defined {s : Server B F} (whole : 2 ^ 32 ≤ s.lrModel.weights.length) :
    Defined (sparseWeights w s) body ↔ GetFits w body := by
  rw [sparseWeights, defined_load_bind]
  simp only [defined_check_bind (by decide : Fault.assertion "to_send_size < 1024 * 1024" ≠ .undefined), to_send_size]
  change _ ∧ ((word w body 0).toNat * 4 % 2 ^ 32 < 1024 * 1024 →
    Defined (rounds (loadEntry w s) 0 (word w body 0).toNat) (body.drop 4)) ↔ _
  constructor
  · rintro ⟨header, rest⟩
    have few : (word w body 0).toNat * 4 % 2 ^ 32 < 2 ^ 20 → (word w body 0).toNat < 2 ^ 18 := by
      intro legal
      apply Decidable.byContradiction
      intro many
      apply rest legal
      apply rounds_stuck (fun k room => loadEntry_reads whole room) (loadEntry_overflows whole) 0
      · omega
      · -- 2^18 entries make 2^20 bytes
        omega
    refine ⟨header, few, fun legal => ?_⟩
    have reads := Reads.rounds 0 (word w body 0).toNat fun k below =>
      loadEntry_reads (w := w) whole (i := k) (by have := few legal; omega)
    apply Decidable.byContradiction
    intro short
    exact rest legal (reads.short (by rw [List.length_drop]; omega))
  · intro fits
    refine ⟨fits.header, fun legal => ?_⟩
    have few := fits.few legal
    have entries := fits.entries legal
    have reads := Reads.rounds 0 (word w body 0).toNat fun k below =>
      loadEntry_reads (w := w) whole (i := k) (by omega)
    have room : 4 * (word w body 0).toNat ≤ (body.drop 4).length := by rw [List.length_drop]; omega
    obtain ⟨weights, done⟩ := reads.enough room
    rw [Defined, done]
    intro undefined
    cases undefined

/-- The body is as long as the element counts in it say. -/
def BodyFits (w : Wire B F) (r : Request B) : Prop :=
  match r.op with
  | .sendLrGradient => LrFits w r.body
  | .sendMfGradient => MfFits w r.body
  | .getLrSparseModel => GetFits w r.body

/-- A body that is not decoded at all fits. -/
def Fits (w : Wire B F) (r : Request B) : Prop :=
  0 < r.body.length → r.body.length ≤ threadBufferSize → BodyFits w r

def DecodesAlone (w : Wire B F) (s : Server B F) (r : Request B) : Prop :=
  match r.op with
  | .sendLrGradient => Defined (LRSparseGradient.loadSerialized w) r.body
  | .sendMfGradient => Defined (MFSparseGradient.loadSerialized w {}) r.body
  | .getLrSparseModel => Defined (sparseWeights w s) r.body

theorem get_one_decodes (s : Server B F) {index : UInt32} {weight : F}
    (found : s.lrModel.getNthWeight index.toNat = .ok weight) :
    Decodes (sparseWeights w s) (w.u32.put 1 ++ w.u32.put index) [s.optMethod.editWeight weight] := by
  have entry : Decodes (loadEntry w s 0) (w.u32.put index) (s.optMethod.editWeight weight) := by
    rw [← List.append_nil (w.u32.put index)]
    apply Decodes.bind (.load w.u32 index)
    rw [found]
    exact .skip (fun _ => rfl) (.skip (.check (by decide) _) (.pure _))
  apply Decodes.bind (.load w.u32 1)
  apply Decodes.skip (.check (by decide) _)
  rw [← List.append_nil (w.u32.put index)]
  exact entry.bind (.last (.pure []))

theorem decodesAlone_iff (r : Request B) {s : Server B F} (whole : 2 ^ 32 ≤ s.lrModel.weights.length) :
    DecodesAlone w s r ↔ BodyFits w r := by
  obtain ⟨op, body, small⟩ := r
  cases op with
  | sendLrGradient => exact lr_defined
  | sendMfGradient => exact mf_defined
  | getLrSparseModel => exact get_defined whole

end Weights
theorem overwrite_of_fits (worker : Worker B) {body : List B} (fits : body.length ≤ threadBufferSize) :
    (overwrite worker.threadBuffer body).length = threadBufferSize := by
  rw [overwrite, List.length_append, List.length_drop, worker.sizes.1]
  omega

theorem bodyRequest_same {w : Wire B F} {X : Type} (decode : Server B F → Decoder B X)
    (apply : Server B F → X → Prog B (Served B F)) (s : Server B F) {body : List B}
    (small : body.length < 2 ^ 32)
    (inside : 0 < body.length → body.length ≤ threadBufferSize → Inside (decode s) body)
    (worker worker' : Worker B) :
    run (bodyRequest w decode apply worker s) (w.u32.put (UInt32.ofNat body.length) ++ body) =
      run (bodyRequest w decode apply worker' s) (w.u32.put (UInt32.ofNat body.length) ++ body) := by
  have size : (UInt32.ofNat body.length).toNat = body.length := UInt32.toNat_ofNat_of_lt' small
  rw [bodyRequest, bodyRequest, run_read (w.u32.put_length _) (by decide),
    run_read (w.u32.put_length _) (by decide)]
  dsimp only
  rw [w.u32.get_put, size, worker.sizes.1, worker'.sizes.1]
  rcases Nat.lt_or_ge threadBufferSize body.length with large | fits
  · rw [if_pos large, if_pos large]
  · rw [if_neg (by omega), if_neg (by omega)]
    rcases Nat.eq_zero_or_pos body.length with empty | positive
    · rw [empty, run_read_none, run_read_none]
    · rw [run_read_all positive, run_read_all positive]
      dsimp only
      have alone := inside positive fits
      rw [overwrite, overwrite, alone, alone]
      cases decode s body <;> rfl

section Requests
variable [Zero F] [One F] [Add F] [Sub F] [Mul F] [Div F] [FloatOps F] [DecidableEq B]

/-- Whatever earlier requests left in the thread's buffers, the request has the same effect and the
same reply; and decoding does not need a cell past the end of the body. The second is asked for
where the model has a weight for every index, so that nothing but the end of the body stops it. -/
structure NoLeak (w : Wire B F) (r : Request B) : Prop where
  same : ∀ (s : Server B F) (worker worker' : Worker B),
    run (gradientF w worker s) (message w r) = run (gradientF w worker' s) (message w r)
  alone : 0 < r.body.length → r.body.length ≤ threadBufferSize →
    ∀ s : Server B F, 2 ^ 32 ≤ s.lrModel.weights.length → DecodesAlone w s r

variable {w : Wire B F}

theorem no_leak_of_fits (r : Request B) (fits : Fits w r) (s : Server B F)
    (worker worker' : Worker B) :
    run (gradientF w worker s) (message w r) = run (gradientF w worker' s) (message w r) := by
  obtain ⟨op, body, small⟩ := r
  cases op with
  | sendLrGradient =>
    rw [message, gradientF_run worker s rfl, gradientF_run worker' s rfl]
    exact bodyRequest_same _ _ s small (fun positive room => lr_inside (fits positive room)) _ _
  | sendMfGradient =>
    rw [message, gradientF_run worker s rfl, gradientF_run worker' s rfl]
    exact bodyRequest_same _ _ s small (fun positive room => mf_inside (fits positive room)) _ _
  | getLrSparseModel =>
    rw [message, gradientF_run worker s rfl, gradientF_run worker' s rfl]
    exact bodyRequest_same _ _ s small (fun positive room => get_inside s (fits positive room)) _ _

/-- A request leaks nothing exactly if its body is as long as the element counts in it say. -/
theorem no_leak_iff_fits (w : Wire B F) (r : Request B) : NoLeak w r ↔ Fits w r := by
  constructor
  · intro clean positive room
    have whole : 2 ^ 32 ≤ (Server.start (B := B) (F := F) (2 ^ 32) 1 1 (.sgd 0) 0).lrModel.weights.length := by
      rw [Server.start, SparseLRModel.ofSize, List.length_replicate]
    exact (decodesAlone_iff r whole).mp (clean.alone positive room _ whole)
  · intro fits
    exact ⟨no_leak_of_fits r fits, fun positive room s whole =>
      (decodesAlone_iff r whole).mpr (fits positive room)⟩

end Requests
def leaveBody (worker : Worker B) (r : Request B) : Worker B :=
  if fits : r.body.length ≤ threadBufferSize then
    { worker with
      threadBuffer := overwrite worker.threadBuffer r.body
      sizes := ⟨overwrite_of_fits worker fits, worker.sizes.2⟩ }
  else worker

def workerAfter (w : Wire B F) (earlier : List (Request B)) : Worker B :=
  earlier.foldl leaveBody (.fresh w)

section Stale
variable [Zero F] [One F] [Add F] [Sub F] [Mul F] [Div F] [FloatOps F] [DecidableEq B]

def Handled (w : Wire B F) : Worker B → List (Request B) → Prop
  | _, [] => True
  | worker, r :: rest =>
    (∃ s : Server B F, ∃ served, (run (gradientF w worker s) (message w r)).result = some (.ok served)) ∧
      Handled w (leaveBody worker r) rest

variable {w : Wire B F}

/-- A request that announces one index but has none is answered with the weight at an index that an
earlier request left. -/
theorem answer_at_stale_index (worker : Worker B) (s : Server B F) {index : UInt32} {weight : F}
    {rest : List B} (stale : worker.threadBuffer.drop 4 = w.u32.put index ++ rest)
    (found : s.lrModel.getNthWeight index.toNat = .ok weight) :
    Talks (gradientF w worker s) (message w ⟨.getLrSparseModel, w.u32.put 1, by simp⟩)
      (w.feature.put (s.optMethod.editWeight weight)) { server := s } := by
  have decoded : sparseWeights w s (overwrite worker.threadBuffer (w.u32.put 1)) =
      .ok ([s.optMethod.editWeight weight], rest) := by
    rw [overwrite, w.u32.put_length, stale, ← List.append_assoc]
    exact get_one_decodes s found rest
  apply gradientF_read worker s rfl
  apply bodyRequest_talks (by simp) (by rw [w.u32.put_length]; decide) decoded
  have said := Talks.say (f := fun _ => returns s) (w.feature.put (s.optMethod.editWeight weight)) (.pure _)
  simpa using said

/-- A request for no weights, with a word behind the count that is not looked at. -/
theorem answer_without_entries (worker : Worker B) (s : Server B F) (index : UInt32) :
    Talks (gradientF w worker s)
      (message w ⟨.getLrSparseModel, w.u32.put 0 ++ w.u32.put index, by simp⟩) [] { server := s } := by
  have decoded : Decodes (sparseWeights w s) (w.u32.put 0) [] := by
    rw [← List.append_nil (w.u32.put 0)]
    apply Decodes.bind (.load w.u32 0)
    exact .skip (.check (by decide) _) (.pure [])
  have room : (w.u32.put 0 ++ w.u32.put index).length ≤ threadBufferSize := by
    rw [List.length_append, w.u32.put_length, w.u32.put_length]
    decide
  apply gradientF_read worker s rfl
  apply bodyRequest_talks (by simp) room
  · rw [overwrite, List.append_assoc]
    exact decoded _
  · exact Talks.say [] (.pure _)

end Stale

section Runs

def twoWeights : Server UInt8 UInt32 :=
  { Server.start 2 1 1 (.sgd 0) 0x4066A7F0 with
    lrModel := { weights := [0, 0x3F800000], weightsHist := [0, 0] } }

def noIndex : Request UInt8 where
  op := .getLrSparseModel
  body := Wire.littleEndian.u32.put 1
  small := by simp

def spareIndex : Request UInt8 where
  op := .getLrSparseModel
  body := Wire.littleEndian.u32.put 0 ++ Wire.littleEndian.u32.put 1
  small := by simp

theorem stale_index_answered :
    ¬ ∀ (s : Server UInt8 UInt32) (r : Request UInt8) (earlier earlier' : List (Request UInt8)),
      Handled Wire.littleEndian (.fresh Wire.littleEndian) earlier →
      Handled Wire.littleEndian (.fresh Wire.littleEndian) earlier' →
      run (gradientF Wire.littleEndian (workerAfter Wire.littleEndian earlier) s)
          (message Wire.littleEndian r) =
        run (gradientF Wire.littleEndian (workerAfter Wire.littleEndian earlier') s)
          (message Wire.littleEndian r) := by
  intro same
  have handled : Handled Wire.littleEndian (.fresh Wire.littleEndian) [spareIndex] := by
    have answered := answer_without_entries (w := Wire.littleEndian) (.fresh .littleEndian) twoWeights 1 []
    rw [List.append_nil] at answered
    exact ⟨⟨twoWeights, _, congrArg Progress.result answered⟩, trivial⟩
  have room : spareIndex.body.length ≤ threadBufferSize := by decide
  have cells : threadBufferSize - 4 = 4 + (threadBufferSize - 8) := by decide
  have zero : (Worker.fresh Wire.littleEndian).threadBuffer.drop 4 =
      Wire.littleEndian.u32.put 0 ++ List.replicate (threadBufferSize - 8) 0 := by
    rw [Worker.fresh, List.drop_replicate, cells, List.replicate_add]
    rfl
  have one : (workerAfter Wire.littleEndian [spareIndex]).threadBuffer.drop 4 =
      Wire.littleEndian.u32.put 1 ++ (Worker.fresh Wire.littleEndian).threadBuffer.drop 8 := by
    rw [workerAfter, List.foldl_cons, List.foldl_nil, leaveBody, dif_pos room]
    rfl
  have first := answer_at_stale_index _ twoWeights zero rfl []
  have second := answer_at_stale_index _ twoWeights one rfl []
  rw [List.append_nil] at first second
  have equal := same twoWeights noIndex [] [spareIndex] trivial handled
  have replies := congrArg Progress.sent (first.symm.trans (equal.trans second))
  exact absurd replies (by decide)

end Runs
end Leakage

import Cirrus.LogisticLoss
import Cirrus.Lib.Transition

/-!
The error task: one thread gets the model of the server again and again and adds
up the losses of its minibatches, and another one answers requests for the last
error. They share three variables, which are read and written one at a time.
-/
namespace ErrorReports
open Gradients SparseLR MF LR LogisticLoss Transition
variable {F : Type}

/-- What `get_model` returns. -/
abbrev CirrusModel (F : Type) := MFModel F ⊕ SparseLRModel F

/-- What `ErrorSparseTask::run` is called with, once it has its minibatches. Other types of models have ended it. -/
structure Task (F : Type) where
  ops : LossOps F
  collaborative : Bool
  minibatchSize : Nat
  minibatchesVec : List (SparseDataset F)
  testing : Bool
  iters : Int
  testThreshold : F

structure Sums (F : Type) where
  totalLoss : F
  totalNumSamples : Nat := 0
  totalNumFeatures : Nat := 0
  startIndex : Nat := 0

inductive Place (F : Type)
  | loop
  | getModel
  | losses (model : CirrusModel F) (done : Nat) (sums : Sums F)
  /-- `last_time` is stored, `last_error` is not. -/
  | timed (model : CirrusModel F) (sums : Sums F)
  | exited (success : Bool)

/-- What a request is answered with, and, as history, how many times and errors were stored when they were read, and the
model that the current error is about, with how many of its losses are in it. -/
structure Reply (F : Type) where
  lastTime : F
  lastError : F
  currError : F
  times : Nat
  errors : Nat
  current : Option (Nat × Nat)

inductive Reader (F : Type)
  | waiting
  | time (lastTime : F) (times : Nat)
  | error (lastTime : F) (times : Nat) (lastError : F) (errors : Nat)

structure History (F : Type) where
  models : List (CirrusModel F) := []
  times : List F := []
  errors : List Nat := []

structure State (F : Type) where
  lastTime : F
  lastError : F
  currError : F
  totalAccuracy : F
  iterations : Int := 0
  place : Place F := .loop
  reader : Reader F := .waiting
  /-- No step reads what follows. -/
  history : History F := {}
  current : Option (Nat × Nat) := none
  replies : List (Reply F) := []

def History.last (h : History F) : Nat := h.models.length - 1

/-- What a thread that has read nothing yet would answer now. -/
def State.now (s : State F) : Reply F :=
  ⟨s.lastTime, s.lastError, s.currError, s.history.times.length, s.history.errors.length, s.current⟩

def Reader.answer (now : Reply F) : Reader F → Reply F
  | .waiting => now
  | .time lastTime times => { now with lastTime := lastTime, times := times }
  | .error lastTime times lastError errors =>
    { now with lastTime := lastTime, times := times, lastError := lastError, errors := errors }

def State.answer (s : State F) : Reply F := s.reader.answer s.now

inductive Label (F : Type)
  | check
  /-- `get_model` returns a model, or throws. -/
  | getModel (received : Option (CirrusModel F))
  | calcLoss
  /-- After the last one, with the time that has passed. -/
  | storeTime (time : F)
  | storeError
  /-- A request arrives, and the thread that answers it reads the three variables in turn. -/
  | readTime
  | readError
  | readCurrent

def numFeatures (ds : SparseDataset F) : Nat := (ds.data.map List.length).sum

def start [Zero F] : State F := { lastTime := 0, lastError := 0, currError := 0, totalAccuracy := 0 }

section Code
variable [Zero F] [One F] [Neg F] [Add F] [Sub F] [Mul F] [Div F] [OfScientific F] [FloatOps F]

def calcLoss (ops : LossOps F) (model : CirrusModel F) (ds : SparseDataset F) (startIndex : UInt32) : Except Fault (F × F) :=
  match model with
  | .inl m => (m.calcLoss ops.toLossOps ds startIndex).map fun ret => (ret.1, ops.ofNat ret.2.toNat)
  | .inr m => m.calcLoss ops ds

namespace Task

def error (t : Task F) (totalLoss : F) (totalNumSamples totalNumFeatures : Nat) : F :=
  if t.collaborative then FloatOps.sqrt (totalLoss / t.ops.ofNat totalNumFeatures) else totalLoss / t.ops.ofNat totalNumSamples

def errorOf (t : Task F) (s : Sums F) : F := t.error s.totalLoss s.totalNumSamples s.totalNumFeatures

def addLoss (t : Task F) (model : CirrusModel F) (s : Sums F) (ds : SparseDataset F) : Except Fault (Sums F × F) := do
  let ret ← calcLoss t.ops model ds (UInt32.ofNat s.startIndex)
  pure ({
    totalLoss := s.totalLoss + ret.1
    totalNumSamples := s.totalNumSamples + ds.data.length
    totalNumFeatures := s.totalNumFeatures + numFeatures ds
    startIndex := s.startIndex + t.minibatchSize }, ret.2)

/-- The end of a turn of the loop, also where the turn has thrown. -/
def again (s : State F) : State F := { s with place := .loop, iterations := s.iterations + 1 }

def calcLoss (t : Task F) (s : State F) (model : CirrusModel F) (done : Nat) (sums : Sums F) (ds : SparseDataset F) :
    Option (State F) :=
  match t.addLoss model sums ds with
  | .ok (sums, accuracy) =>
    some { s with
      totalAccuracy := s.totalAccuracy + accuracy
      currError := t.errorOf sums
      current := some (s.history.last, done + 1)
      place := .losses model (done + 1) sums }
  | .error (.exception _) => some (again s)
  -- Nothing catches what is undefined, and an assertion ends the process.
  | .error _ => none

variable [LE F] [DecidableLE F]

def step (t : Task F) (s : State F) : Label F → Option (State F)
  | .check =>
    match s.place with
    | .loop =>
      if t.iters ≤ s.iterations ∧ t.testing then some { s with place := .exited false }
      else if t.testThreshold ≤ s.totalAccuracy / t.ops.ofNat t.minibatchesVec.length ∧ t.testing then
        some { s with place := .exited true }
      else some { s with place := .getModel }
    | _ => none
  | .getModel received =>
    match s.place, received with
    | .getModel, none => some (again s)
    | .getModel, some model =>
      if model.isLeft = t.collaborative then
        some { s with
          totalAccuracy := 0
          place := .losses model 0 { totalLoss := 0 }
          history := { s.history with models := s.history.models ++ [model] } }
      else none
    | _, _ => none
  | .calcLoss =>
    match s.place with
    | .losses model done sums => (t.minibatchesVec[done]?).bind (t.calcLoss s model done sums)
    | _ => none
  | .storeTime time =>
    match s.place with
    | .losses model done sums =>
      if done = t.minibatchesVec.length then
        some { s with
          lastTime := time
          place := .timed model sums
          history := { s.history with times := s.history.times ++ [time] } }
      else none
    | _ => none
  | .storeError =>
    match s.place with
    | .timed _ sums =>
      some (again { s with
        lastError := t.errorOf sums
        history := { s.history with errors := s.history.errors ++ [s.history.last] } })
    | _ => none
  | .readTime =>
    match s.place, s.reader with
    | .exited _, _ => none
    | _, .waiting => some { s with reader := .time s.lastTime s.history.times.length }
    | _, _ => none
  | .readError =>
    match s.place, s.reader with
    | .exited _, _ => none
    | _, .time lastTime times => some { s with reader := .error lastTime times s.lastError s.history.errors.length }
    | _, _ => none
  | .readCurrent =>
    match s.place, s.reader with
    | .exited _, _ => none
    | _, .error .. => some { s with reader := .waiting, replies := s.replies ++ [s.answer] }
    | _, _ => none

end Task
end Code

section Steps
variable [Zero F] [One F] [Neg F] [Add F] [Sub F] [Mul F] [Div F] [OfScientific F] [FloatOps F]
variable {t : Task F} {s s' : State F} {l : Label F} {h h' : History F} {r r' r'' now now' : Reply F}

def Task.after (t : Task F) (model : CirrusModel F) (done : Nat) : Except Fault (Sums F × F) :=
  (t.minibatchesVec.take done).foldlM (fun s ds => do
    let (sums, accuracy) ← t.addLoss model s.1 ds
    pure (sums, s.2 + accuracy)) ({ totalLoss := 0 }, 0)

theorem after_succ {model : CirrusModel F} {done : Nat} {ds : SparseDataset F} {sums sums' : Sums F} {total accuracy : F}
    (before : t.after model done = .ok (sums, total)) (next : t.minibatchesVec[done]? = some ds)
    (added : t.addLoss model sums ds = .ok (sums', accuracy)) : t.after model (done + 1) = .ok (sums', total + accuracy) := by
  obtain ⟨known, rfl⟩ := List.getElem?_eq_some_iff.mp next
  rw [Task.after, List.take_succ_eq_append_getElem known, List.foldlM_append]
  refine (Loops.bind_of_ok before _).trans ?_
  rw [List.foldlM_cons, Loops.bind_of_ok added]
  rfl

structure Summed (t : Task F) (h : History F) (n done : Nat) (sums : Sums F) (total : F) : Prop where
  some_model : ∃ model, h.models[n]? = some model ∧ model.isLeft = t.collaborative ∧ t.after model done = .ok (sums, total)
  done : done ≤ t.minibatchesVec.length

/-- The last error is that of a model over all of the minibatches. -/
def LastOf (t : Task F) (h : History F) (error : F) : Nat → Prop
  | 0 => error = 0
  | k + 1 => ∃ n sums total, h.errors[k]? = some n ∧ Summed t h n t.minibatchesVec.length sums total ∧ error = t.errorOf sums

/-- The current error is that of a model over the first minibatches. -/
def CurrentOf (t : Task F) (h : History F) (error : F) : Option (Nat × Nat) → Prop
  | none => error = 0
  | some (n, done) => 0 < done ∧ ∃ sums total, Summed t h n done sums total ∧ error = t.errorOf sums

/-- The time and the error of an answer can be of different turns, but the error is at most one turn behind. -/
structure Reply.Holds (t : Task F) (h : History F) (r : Reply F) : Prop where
  known : r.times ≤ h.times.length
  time : r.lastTime = (h.times.take r.times).getLast?.getD 0
  error : LastOf t h r.lastError r.errors
  skew : r.times ≤ r.errors + 1
  current : CurrentOf t h r.currError r.current

structure Reply.Before (r r' : Reply F) : Prop where
  times : r.times ≤ r'.times
  errors : r.errors ≤ r'.errors
  current : ∀ n done, r.current = some (n, done) →
    ∃ n' done', r'.current = some (n', done') ∧ (n < n' ∨ n = n' ∧ done ≤ done')

structure History.Before (h h' : History F) : Prop where
  models : h.models <+: h'.models
  times : h.times <+: h'.times
  errors : h.errors <+: h'.errors

section Orders
omit [Zero F] [One F] [Neg F] [Add F] [Sub F] [Mul F] [Div F] [OfScientific F] [FloatOps F]

theorem Reply.Before.refl (r : Reply F) : r.Before r where
  times := Nat.le_refl _
  errors := Nat.le_refl _
  current n done here := ⟨n, done, here, .inr ⟨rfl, Nat.le_refl done⟩⟩

theorem Reply.Before.trans (first : r.Before r') (later : r'.Before r'') : r.Before r'' where
  times := Nat.le_trans first.times later.times
  errors := Nat.le_trans first.errors later.errors
  current n done here := by
    obtain ⟨n', done', here', le⟩ := first.current n done here
    obtain ⟨n'', done'', here'', le'⟩ := later.current n' done' here'
    exact ⟨n'', done'', here'', by omega⟩

theorem History.Before.refl (h : History F) : h.Before h := ⟨List.prefix_rfl, List.prefix_rfl, List.prefix_rfl⟩

theorem found_later {A : Type} {l l' : List A} (before : l <+: l') {k : Nat} {a : A} (there : l[k]? = some a) :
    l'[k]? = some a := by
  obtain ⟨inside, rfl⟩ := List.getElem?_eq_some_iff.mp there
  exact List.prefix_iff_getElem?.mp before k inside

theorem answer_goes (reader : Reader F) (before : now.Before now') : (reader.answer now).Before (reader.answer now') := by
  cases reader with
  | waiting => exact before
  | time lastTime times => exact ⟨Nat.le_refl _, before.errors, before.current⟩
  | error lastTime times lastError errors => exact ⟨Nat.le_refl _, Nat.le_refl _, before.current⟩

theorem answer_behind {reader : Reader F} (behind : (reader.answer now).Before now) (before : now.Before now') :
    (reader.answer now').Before now' := by
  cases reader with
  | waiting => exact .refl _
  | time lastTime times =>
    exact ⟨Nat.le_trans behind.times before.times, Nat.le_refl _, (Reply.Before.refl now').current⟩
  | error lastTime times lastError errors =>
    exact ⟨Nat.le_trans behind.times before.times, Nat.le_trans behind.errors before.errors, (Reply.Before.refl now').current⟩

end Orders

theorem Summed.later {n done : Nat} {sums : Sums F} {total : F} (summed : Summed t h n done sums total) (before : h.Before h') :
    Summed t h' n done sums total := by
  obtain ⟨⟨model, there, after⟩, done⟩ := summed
  exact ⟨⟨model, found_later before.models there, after⟩, done⟩

theorem LastOf.later {error : F} {k : Nat} (last : LastOf t h error k) (before : h.Before h') : LastOf t h' error k := by
  cases k with
  | zero => exact last
  | succ k =>
    obtain ⟨n, sums, total, there, summed, same⟩ := last
    exact ⟨n, sums, total, found_later before.errors there, summed.later before, same⟩

theorem CurrentOf.later {error : F} {place : Option (Nat × Nat)} (current : CurrentOf t h error place)
    (before : h.Before h') : CurrentOf t h' error place := by
  cases place with
  | none => exact current
  | some place =>
    obtain ⟨positive, sums, total, summed, same⟩ := current
    exact ⟨positive, sums, total, summed.later before, same⟩

theorem Reply.Holds.later (holds : r.Holds t h) (before : h.Before h') : r.Holds t h' where
  known := Nat.le_trans holds.known before.times.length_le
  time := by
    obtain ⟨rest, same⟩ := before.times
    rw [← same, List.take_append_of_le_length holds.known, holds.time]
  error := holds.error.later before
  skew := holds.skew
  current := holds.current.later before

theorem answer_holds {reader : Reader F} (holds : (reader.answer now).Holds t h) (before : h.Before h')
    (goes : now.Before now') (holds' : now'.Holds t h') : (reader.answer now').Holds t h' := by
  have later := holds.later before
  cases reader with
  | waiting => exact holds'
  | time lastTime times =>
    refine ⟨later.known, later.time, holds'.error, ?_, holds'.current⟩
    exact Nat.le_trans later.skew (Nat.succ_le_succ goes.errors)
  | error lastTime times lastError errors => exact ⟨later.known, later.time, later.error, later.skew, holds'.current⟩

structure Turn (t : Task F) (s : State F) (model : CirrusModel F) (done : Nat) (sums : Sums F) : Prop where
  there : s.history.models[s.history.last]? = some model
  kind : model.isLeft = t.collaborative
  bound : done ≤ t.minibatchesVec.length
  after : t.after model done = .ok (sums, s.totalAccuracy)
  latest : ∀ before, s.current = some (s.history.last, before) → before ≤ done
  later : ∀ n ∈ s.history.errors, n < s.history.last

def State.timed (s : State F) : Nat :=
  match s.place with
  | .timed .. => 1
  | _ => 0

structure Reported (t : Task F) (s : State F) : Prop where
  computing : ∀ model done sums, s.place = .losses model done sums → Turn t s model done sums
  storing : ∀ model sums, s.place = .timed model sums → Turn t s model t.minibatchesVec.length sums
  accuracy : s.totalAccuracy = 0 ∨ ∃ done sums, Summed t s.history s.history.last done sums s.totalAccuracy
  holds : s.now.Holds t s.history
  counts : s.history.times.length = s.history.errors.length + s.timed
  increasing : s.history.errors.Pairwise (· < ·)
  errors : ∀ n ∈ s.history.errors, n < s.history.models.length
  current : ∀ n done, s.current = some (n, done) → n < s.history.models.length

theorem Turn.summed {model : CirrusModel F} {done : Nat} {sums : Sums F} (turn : Turn t s model done sums) :
    Summed t s.history s.history.last done sums s.totalAccuracy :=
  ⟨⟨model, turn.there, turn.kind, turn.after⟩, turn.bound⟩

theorem Turn.size {model : CirrusModel F} {done : Nat} {sums : Sums F} (turn : Turn t s model done sums) :
    s.history.last < s.history.models.length := (List.getElem?_eq_some_iff.mp turn.there).1

theorem Reported.moved (reported : Reported t s) (untimed : s.timed = 0) {place : Place F} {iterations : Int}
    (outside : place = .loop ∨ place = .getModel ∨ ∃ success, place = .exited success) :
    Reported t { s with place := place, iterations := iterations } where
  computing model done sums here := by
    rcases outside with rfl | rfl | ⟨_, rfl⟩
    all_goals cases here
  storing model sums here := by
    rcases outside with rfl | rfl | ⟨_, rfl⟩
    all_goals cases here
  accuracy := reported.accuracy
  holds := reported.holds
  counts := by
    have counts := reported.counts
    rw [untimed] at counts
    rcases outside with rfl | rfl | ⟨_, rfl⟩
    all_goals exact counts
  increasing := reported.increasing
  errors := reported.errors
  current := reported.current

variable [LE F] [DecidableLE F]

theorem reported_check (reported : Reported t s) (taken : t.step s .check = some s') :
    Reported t s' ∧ s.now.Before s'.now := by
  unfold Task.step at taken
  dsimp only at taken
  split at taken
  · rename_i place
    have untimed : s.timed = 0 := by rw [State.timed, place]
    split at taken
    · obtain rfl := Option.some.inj taken
      exact ⟨reported.moved untimed (.inr (.inr ⟨false, rfl⟩)), .refl _⟩
    · split at taken
      · obtain rfl := Option.some.inj taken
        exact ⟨reported.moved untimed (.inr (.inr ⟨true, rfl⟩)), .refl _⟩
      · obtain rfl := Option.some.inj taken
        exact ⟨reported.moved untimed (.inr (.inl rfl)), .refl _⟩
  · cases taken

theorem reported_getModel (reported : Reported t s) {received : Option (CirrusModel F)}
    (taken : t.step s (.getModel received) = some s') : Reported t s' ∧ s.now.Before s'.now := by
  unfold Task.step at taken
  dsimp only at taken
  split at taken
  · rename_i place
    obtain rfl := Option.some.inj taken
    exact ⟨reported.moved (by rw [State.timed, place]) (.inl rfl), .refl _⟩
  · rename_i model place
    split at taken
    · rename_i kind
      obtain rfl := Option.some.inj taken
      have size : (s.history.models ++ [model]).length = s.history.models.length + 1 := List.length_append
      have last : (s.history.models ++ [model]).length - 1 = s.history.models.length := by rw [size]; rfl
      have grows : s.history.Before { s.history with models := s.history.models ++ [model] } :=
        ⟨List.prefix_append _ _, List.prefix_rfl, List.prefix_rfl⟩
      refine ⟨⟨fun model' done sums here => ?_, fun _ _ here => ?_, .inl rfl, reported.holds.later grows, ?_,
        reported.increasing, fun n member => ?_, fun n done here => ?_⟩, .refl _⟩
      · cases here
        refine ⟨?_, kind, Nat.zero_le _, rfl, fun before current => ?_, fun n member => ?_⟩
        · exact (congrArg _ last).trans List.getElem?_concat_length
        · exact absurd (reported.current _ _ current) (Nat.not_lt.mpr (Nat.le_of_eq last.symm))
        · exact Nat.lt_of_lt_of_eq (reported.errors n member) last.symm
      · cases here
      · have counts := reported.counts
        rw [State.timed, place] at counts
        exact counts
      · exact Nat.lt_of_lt_of_eq (Nat.lt_succ_of_lt (reported.errors n member)) size.symm
      · exact Nat.lt_of_lt_of_eq (Nat.lt_succ_of_lt (reported.current n done here)) size.symm
    · cases taken
  · cases taken

theorem reported_calcLoss (reported : Reported t s) (taken : t.step s .calcLoss = some s') :
    Reported t s' ∧ s.now.Before s'.now := by
  unfold Task.step at taken
  dsimp only at taken
  split at taken
  · rename_i model done sums place
    have untimed : s.timed = 0 := by rw [State.timed, place]
    obtain ⟨ds, next, taken⟩ := Option.bind_eq_some_iff.mp taken
    have turn := reported.computing model done sums place
    unfold Task.calcLoss at taken
    split at taken
    · rename_i sums' accuracy added
      obtain rfl := Option.some.inj taken
      have known := (List.getElem?_eq_some_iff.mp next).1
      have more := after_succ turn.after next added
      have summed : Summed t s.history s.history.last (done + 1) sums' (s.totalAccuracy + accuracy) :=
        ⟨⟨model, turn.there, turn.kind, more⟩, known⟩
      have holds := reported.holds
      refine ⟨⟨fun model' done' sums'' here => ?_, fun _ _ here => ?_, .inr ⟨done + 1, sums', summed⟩,
        ⟨holds.known, holds.time, holds.error, holds.skew, ?_⟩, ?_, reported.increasing, reported.errors,
        fun n' done' here => ?_⟩, ⟨Nat.le_refl _, Nat.le_refl _, fun n' done' here => ?_⟩⟩
      · cases here
        refine ⟨turn.there, turn.kind, known, more, fun before current => ?_, turn.later⟩
        cases current
        exact Nat.le_refl _
      · cases here
      · exact ⟨Nat.succ_pos done, sums', s.totalAccuracy + accuracy, summed, rfl⟩
      · have counts := reported.counts
        rw [untimed] at counts
        exact counts
      · cases here
        exact turn.size
      · refine ⟨s.history.last, done + 1, rfl, ?_⟩
        have before := reported.current n' done' here
        by_cases same : n' = s.history.last
        · subst same
          exact .inr ⟨rfl, Nat.le_succ_of_le (turn.latest done' here)⟩
        · have last : s.history.last = s.history.models.length - 1 := rfl
          exact .inl (by omega)
    · obtain rfl := Option.some.inj taken
      exact ⟨reported.moved untimed (.inl rfl), .refl _⟩
    · cases taken
  · cases taken

theorem reported_storeTime (reported : Reported t s) {time : F} (taken : t.step s (.storeTime time) = some s') :
    Reported t s' ∧ s.now.Before s'.now := by
  unfold Task.step at taken
  dsimp only at taken
  split at taken
  · rename_i model done sums place
    have turn := reported.computing model done sums place
    split at taken
    · rename_i whole
      obtain rfl := Option.some.inj taken
      have size : (s.history.times ++ [time]).length = s.history.times.length + 1 := List.length_append
      have counts : s.history.times.length = s.history.errors.length + 0 := by
        have counts := reported.counts
        rwa [State.timed, place] at counts
      have grows : s.history.Before { s.history with times := s.history.times ++ [time] } :=
        ⟨List.prefix_rfl, List.prefix_append _ _, List.prefix_rfl⟩
      have holds := reported.holds
      refine ⟨⟨fun _ _ _ here => ?_, fun model' sums' here => ?_, ?_, ⟨Nat.le_refl _, ?_, holds.error.later grows, ?_,
        holds.current.later grows⟩, ?_, reported.increasing, reported.errors, reported.current⟩, ⟨?_, Nat.le_refl _,
        fun n' done' here => ⟨n', done', here, .inr ⟨rfl, Nat.le_refl _⟩⟩⟩⟩
      · cases here
      · cases here
        obtain ⟨there, kind, bound, after, latest, later⟩ := whole ▸ turn
        exact ⟨there, kind, bound, after, latest, later⟩
      · exact .inr ⟨done, sums, turn.summed.later grows⟩
      · change time = (((s.history.times ++ [time]).take (s.history.times ++ [time]).length).getLast?).getD 0
        rw [List.take_length, List.getLast?_concat]
        rfl
      · change (s.history.times ++ [time]).length ≤ s.history.errors.length + 1
        omega
      · change (s.history.times ++ [time]).length = s.history.errors.length + 1
        omega
      · change s.history.times.length ≤ (s.history.times ++ [time]).length
        omega
    · cases taken
  · cases taken

theorem reported_storeError (reported : Reported t s) (taken : t.step s .storeError = some s') :
    Reported t s' ∧ s.now.Before s'.now := by
  unfold Task.step at taken
  dsimp only at taken
  split at taken
  · rename_i model sums place
    have turn := reported.storing model sums place
    obtain rfl := Option.some.inj taken
    have size : (s.history.errors ++ [s.history.last]).length = s.history.errors.length + 1 := List.length_append
    have counts : s.history.times.length = s.history.errors.length + 1 := by
      have counts := reported.counts
      rwa [State.timed, place] at counts
    have grows : s.history.Before { s.history with errors := s.history.errors ++ [s.history.last] } :=
      ⟨List.prefix_rfl, List.prefix_rfl, List.prefix_append _ _⟩
    have holds := reported.holds
    refine ⟨⟨fun _ _ _ here => ?_, fun _ _ here => ?_, .inr ⟨_, sums, turn.summed.later grows⟩, ⟨holds.known, holds.time,
      ?_, ?_, holds.current.later grows⟩, ?_, ?_, fun n member => ?_, reported.current⟩, ⟨Nat.le_refl _, ?_,
      fun n' done' here => ⟨n', done', here, .inr ⟨rfl, Nat.le_refl _⟩⟩⟩⟩
    · cases here
    · cases here
    · change LastOf t _ _ (s.history.errors ++ [s.history.last]).length
      rw [size]
      exact ⟨s.history.last, sums, s.totalAccuracy, List.getElem?_concat_length, turn.summed.later grows, rfl⟩
    · change s.history.times.length ≤ (s.history.errors ++ [s.history.last]).length + 1
      omega
    · change s.history.times.length = (s.history.errors ++ [s.history.last]).length
      omega
    · refine List.pairwise_append.mpr ⟨reported.increasing, List.pairwise_singleton _ _, fun n member n' last => ?_⟩
      exact List.mem_singleton.mp last ▸ turn.later n member
    · rcases List.mem_append.mp member with old | new
      · exact reported.errors n old
      · exact List.mem_singleton.mp new ▸ turn.size
    · change s.history.errors.length ≤ (s.history.errors ++ [s.history.last]).length
      omega
  · cases taken

theorem threads_step (taken : t.step s l = some s') :
    (s'.reader = s.reader ∧ s'.replies = s.replies ∧ s.history.Before s'.history) ∨
      (∃ reader, s' = { s with reader := reader } ∧ s'.answer = s.answer) ∨
      s' = { s with reader := .waiting, replies := s.replies ++ [s.answer] } := by
  cases l with
  | check =>
    unfold Task.step at taken
    dsimp only at taken
    repeat' split at taken
    all_goals cases taken
    all_goals exact .inl ⟨rfl, rfl, .refl _⟩
  | getModel received =>
    unfold Task.step at taken
    dsimp only at taken
    repeat' split at taken
    all_goals cases taken
    · exact .inl ⟨rfl, rfl, .refl _⟩
    · exact .inl ⟨rfl, rfl, List.prefix_append _ _, List.prefix_rfl, List.prefix_rfl⟩
  | calcLoss =>
    unfold Task.step at taken
    dsimp only at taken
    split at taken
    · obtain ⟨ds, _, taken⟩ := Option.bind_eq_some_iff.mp taken
      unfold Task.calcLoss at taken
      split at taken
      all_goals cases taken
      all_goals exact .inl ⟨rfl, rfl, .refl _⟩
    · cases taken
  | storeTime time =>
    unfold Task.step at taken
    dsimp only at taken
    repeat' split at taken
    all_goals cases taken
    exact .inl ⟨rfl, rfl, List.prefix_rfl, List.prefix_append _ _, List.prefix_rfl⟩
  | storeError =>
    unfold Task.step at taken
    dsimp only at taken
    split at taken
    all_goals cases taken
    exact .inl ⟨rfl, rfl, List.prefix_rfl, List.prefix_rfl, List.prefix_append _ _⟩
  | readTime =>
    unfold Task.step at taken
    dsimp only at taken
    split at taken
    · cases taken
    · rename_i waiting _
      obtain rfl := Option.some.inj taken
      refine .inr (.inl ⟨_, rfl, ?_⟩)
      rw [State.answer, State.answer, waiting]
      rfl
    · cases taken
  | readError =>
    unfold Task.step at taken
    dsimp only at taken
    split at taken
    · cases taken
    · rename_i waiting _
      obtain rfl := Option.some.inj taken
      refine .inr (.inl ⟨_, rfl, ?_⟩)
      rw [State.answer, State.answer, waiting]
      rfl
    · cases taken
  | readCurrent =>
    unfold Task.step at taken
    dsimp only at taken
    split at taken
    · cases taken
    · exact .inr (.inr (Option.some.inj taken).symm)
    · cases taken

omit [LE F] [DecidableLE F] in
theorem Reported.read (reported : Reported t s) (reader : Reader F) (replies : List (Reply F)) :
    Reported t { s with reader := reader, replies := replies } := by
  obtain ⟨computing, storing, accuracy, holds, counts, increasing, errors, current⟩ := reported
  refine ⟨fun model done sums here => ?_, fun model sums here => ?_, accuracy, holds, counts, increasing, errors, current⟩
  · obtain ⟨there, kind, bound, after, latest, later⟩ := computing model done sums here
    exact ⟨there, kind, bound, after, latest, later⟩
  · obtain ⟨there, kind, bound, after, latest, later⟩ := storing model sums here
    exact ⟨there, kind, bound, after, latest, later⟩

structure Answers (t : Task F) (s : State F) : Prop where
  reported : Reported t s
  answer : s.answer.Holds t s.history
  behind : s.answer.Before s.now
  holds : ∀ r ∈ s.replies, r.Holds t s.history
  before : ∀ r ∈ s.replies, r.Before s.answer
  ordered : s.replies.Pairwise Reply.Before

omit [LE F] [DecidableLE F] in
theorem Answers.computed (answers : Answers t s) (reported : Reported t s') (goes : s.now.Before s'.now)
    (reader : s'.reader = s.reader) (replies : s'.replies = s.replies) (grows : s.history.Before s'.history) :
    Answers t s' where
  reported := reported
  answer := by
    rw [State.answer, reader]
    exact answer_holds answers.answer grows goes reported.holds
  behind := by
    rw [State.answer, reader]
    exact answer_behind answers.behind goes
  holds := by
    rw [replies]
    exact fun r member => (answers.holds r member).later grows
  before := by
    rw [replies, State.answer, reader]
    exact fun r member => (answers.before r member).trans (answer_goes s.reader goes)
  ordered := replies ▸ answers.ordered

omit [LE F] [DecidableLE F] in
theorem Answers.replied (answers : Answers t s) :
    Answers t { s with reader := .waiting, replies := s.replies ++ [s.answer] } where
  reported := answers.reported.read _ _
  answer := answers.reported.holds
  behind := .refl _
  holds r member := by
    rcases List.mem_append.mp member with old | new
    · exact answers.holds r old
    · exact List.mem_singleton.mp new ▸ answers.answer
  before r member := by
    rcases List.mem_append.mp member with old | new
    · exact (answers.before r old).trans answers.behind
    · exact List.mem_singleton.mp new ▸ answers.behind
  ordered := by
    refine List.pairwise_append.mpr ⟨answers.ordered, List.pairwise_singleton _ _, fun r old r' new => ?_⟩
    exact List.mem_singleton.mp new ▸ answers.before r old

theorem reported_step (reported : Reported t s) (taken : t.step s l = some s') : Reported t s' ∧ s.now.Before s'.now := by
  cases l with
  | check => exact reported_check reported taken
  | getModel received => exact reported_getModel reported taken
  | calcLoss => exact reported_calcLoss reported taken
  | storeTime time => exact reported_storeTime reported taken
  | storeError => exact reported_storeError reported taken
  | readTime | readError | readCurrent =>
    unfold Task.step at taken
    dsimp only at taken
    split at taken
    · cases taken
    · obtain rfl := Option.some.inj taken
      exact ⟨reported.read _ _, .refl _⟩
    · cases taken

theorem answers_step (answers : Answers t s) (taken : t.step s l = some s') : Answers t s' := by
  obtain ⟨reported, goes⟩ := reported_step answers.reported taken
  rcases threads_step taken with ⟨reader, replies, grows⟩ | ⟨reader, rfl, same⟩ | rfl
  · exact answers.computed reported goes reader replies grows
  · exact ⟨reported, same ▸ answers.answer, same ▸ answers.behind, answers.holds, same ▸ answers.before, answers.ordered⟩
  · exact answers.replied

omit [LE F] [DecidableLE F] in
theorem answers_start : Answers t start where
  reported :=
    { computing := fun _ _ _ here => by cases here
      storing := fun _ _ here => by cases here
      accuracy := .inl rfl
      holds := ⟨Nat.le_refl _, rfl, rfl, Nat.zero_le _, rfl⟩
      counts := rfl
      increasing := .nil
      errors := fun _ member => absurd member List.not_mem_nil
      current := fun _ _ here => by cases here }
  answer := ⟨Nat.le_refl _, rfl, rfl, Nat.zero_le _, rfl⟩
  behind := .refl _
  holds r member := absurd member List.not_mem_nil
  before r member := absurd member List.not_mem_nil
  ordered := .nil

theorem answers_reachable (reached : Reachable t.step (· = start) anyStep s) : Answers t s :=
  reached.invariant (fun _ same => same ▸ answers_start) fun _ _ _ answers _ taken => answers_step answers taken

end Steps

section Exact
variable {m : SparseLRModel ℝ}

def concat (parts : List (SparseDataset ℝ)) : SparseDataset ℝ where
  data := parts.flatMap (·.data)
  labels := parts.flatMap (·.labels)

def shift {A : Type} [Add A] (s u : ℝ × A) : ℝ × A := (s.1 + u.1, s.2 + u.2)

theorem addLoss_shift (labels : List ℝ) (s u : ℝ × Nat) (sample : Row ℝ × Nat) :
    m.addLoss realLoss labels (shift s u) sample = (m.addLoss realLoss labels u sample).map (shift s) := by
  unfold SparseLRModel.addLoss
  cases at' labels sample.2 with
  | error fault => rfl
  | ok classI =>
    cases m.probability sample.1 with
    | error fault => rfl
    | ok prob =>
      cases value_ : LR.crossEntropy realLoss classI prob with
      | error fault =>
        rw [Loops.bind_of_ok rfl, Loops.bind_of_ok rfl, Loops.bind_of_ok rfl, Loops.bind_of_ok rfl, value_]
        rfl
      | ok value =>
        rw [Loops.bind_of_ok rfl, Loops.bind_of_ok rfl, Loops.bind_of_ok rfl, Loops.bind_of_ok rfl, value_]
        change LR.addSample realLoss classI prob value (shift s u) = (LR.addSample realLoss classI prob value u).map (shift s)
        unfold LR.addSample
        split
        · rfl
        · refine congrArg Except.ok (Prod.ext ?_ ?_)
          · exact add_sub_assoc _ _ _
          · dsimp only [shift]
            split
            · rfl
            · rfl

theorem addLoss_labels {labels labels' : List ℝ} {sample sample' : Row ℝ × Nat} (same : sample.1 = sample'.1)
    (label : labels[sample.2]? = labels'[sample'.2]?) (s : ℝ × Nat) :
    m.addLoss realLoss labels s sample = m.addLoss realLoss labels' s sample' := by
  rw [SparseLRModel.addLoss, SparseLRModel.addLoss, at', at', label, same]

section Loops
variable {A : Type} [Zero A] [Add A] {f g f' : ℝ × A → Row ℝ × Nat → Except Fault (ℝ × A)} {data data' : List (Row ℝ)}

theorem loop_append (zero : ∀ a : A, a + 0 = a) (first : ∀ sample ∈ data.zipIdx, ∀ s, f s sample = g s sample)
    (second : ∀ s sample, f s (sample.1, sample.2 + data.length) = f' s sample)
    (adds : ∀ s u sample, f' (shift s u) sample = (f' u sample).map (shift s)) {s s' : ℝ × A}
    (looped : data.zipIdx.foldlM g (0, 0) = .ok s) (looped' : data'.zipIdx.foldlM f' (0, 0) = .ok s') :
    (data ++ data').zipIdx.foldlM f (0, 0) = .ok (shift s s') := by
  have same : shift s (0, 0) = s := Prod.ext (add_zero _) (zero _)
  have moved : data'.zipIdx (0 + data.length) = data'.zipIdx.map fun sample => (sample.1, sample.2 + data.length) := by
    rw [Nat.add_comm]
    exact (@List.map_snd_add_zipIdx_eq_zipIdx _ data' data.length 0).symm
  have rest : (data'.zipIdx (0 + data.length)).foldlM f s = .ok (shift s s') := by
    rw [moved, List.foldlM_map]
    have shifted := Loops.foldlM_focus (shift s) (adds s) data'.zipIdx (0, 0)
    rw [looped', same] at shifted
    exact (Loops.foldlM_congr (fun sample _ s => second s sample) s).trans shifted
  rw [List.zipIdx_append, List.foldlM_append, Loops.foldlM_congr first, looped]
  exact rest

end Loops

theorem lossOf_real {samples : Nat} {s : ℝ × Nat} {loss accuracy : ℝ}
    (done : LR.lossOf realLoss samples s = .ok (loss, accuracy)) : loss = s.1 ∧ 0 ≤ loss := by
  unfold LR.lossOf at done
  split at done
  · cases done
  · rename_i nonneg
    split at done
    · cases done
    · cases done
      exact ⟨rfl, not_lt.mp fun negative => nonneg (decide_eq_true negative)⟩

theorem lossOf_nonneg {samples : Nat} {s : ℝ × Nat} (nonneg : 0 ≤ s.1) :
    ∃ accuracy, LR.lossOf realLoss samples s = .ok (s.1, accuracy) := by
  have fine : realLoss.less s.1 0 = false := decide_eq_false (not_lt.mpr nonneg)
  rw [LR.lossOf, fine]
  exact ⟨_, rfl⟩

def append (d d' : SparseDataset ℝ) : SparseDataset ℝ := ⟨d.data ++ d'.data, d.labels ++ d'.labels⟩

theorem lrLoss_append {d d' : SparseDataset ℝ} (aligned : d.labels.length = d.data.length) {loss loss' a a' : ℝ}
    (first : m.calcLoss realLoss d = .ok (loss, a)) (second : m.calcLoss realLoss d' = .ok (loss', a')) :
    ∃ accuracy, m.calcLoss realLoss (append d d') = .ok (loss + loss', accuracy) := by
  obtain ⟨s, looped, ends⟩ := Loops.ok_of_bind first
  obtain ⟨s', looped', ends'⟩ := Loops.ok_of_bind second
  obtain ⟨rfl, nonneg⟩ := lossOf_real ends
  obtain ⟨rfl, nonneg'⟩ := lossOf_real ends'
  have both : (append d d').data.zipIdx.foldlM (m.addLoss realLoss (append d d').labels) (0, 0) = .ok (shift s s') := by
    refine loop_append Nat.add_zero (fun sample member s => ?_) (fun s sample => ?_)
      (fun s u sample => addLoss_shift d'.labels s u sample) looped looped'
    · have found := List.mk_mem_zipIdx_iff_getElem?.mp member
      have bound : sample.2 < d.labels.length := aligned ▸ (List.getElem?_eq_some_iff.mp found).1
      exact addLoss_labels rfl (List.getElem?_append_left bound) s
    · have label : (append d d').labels[sample.2 + d.data.length]? = d'.labels[sample.2]? := by
        change (d.labels ++ d'.labels)[sample.2 + d.data.length]? = _
        rw [List.getElem?_append_right (by omega), aligned, Nat.add_sub_cancel]
      exact @addLoss_labels m _ _ (sample.1, sample.2 + d.data.length) sample rfl label s
  rw [SparseLRModel.calcLoss, both]
  exact lossOf_nonneg (add_nonneg nonneg nonneg')

section Ratings
variable {mf : MFModel ℝ}

theorem addRating_real (user : UInt64) (s : ℝ × UInt64) (e : Int32 × ℝ) : mf.addLoss realLoss.toLossOps user s e =
    (mf.predict user.toUInt32 (wide e.1).toUInt32).map fun prediction => (s.1 + (e.2 - prediction) ^ 2, s.2 + 1) := by
  unfold MFModel.addLoss
  dsimp only
  cases mf.predict user.toUInt32 (wide e.1).toUInt32 with
  | error fault => rfl
  | ok prediction =>
    rw [Loops.bind_of_ok rfl]
    rfl

theorem addRating_shift (user : UInt64) (s u : ℝ × UInt64) (e : Int32 × ℝ) :
    mf.addLoss realLoss.toLossOps user (shift s u) e = (mf.addLoss realLoss.toLossOps user u e).map (shift s) := by
  rw [addRating_real, addRating_real]
  cases mf.predict user.toUInt32 (wide e.1).toUInt32 with
  | error fault => rfl
  | ok prediction => exact congrArg Except.ok (Prod.ext (add_assoc _ _ _) (UInt64.add_assoc _ _ _))

theorem user_moved (i n : Nat) :
    (UInt64.ofNat (i + n) + (UInt32.ofNat 0).toUInt64).toUInt32 = (UInt64.ofNat i + (UInt32.ofNat n).toUInt64).toUInt32 := by
  apply UInt32.toNat_inj.mp
  simp

theorem addRating_user {user user' : UInt64} (same : user.toUInt32 = user'.toUInt32) :
    mf.addLoss realLoss.toLossOps user = mf.addLoss realLoss.toLossOps user' := by
  funext s e
  rw [addRating_real, addRating_real, same]

theorem mfLoss_append {d d' : SparseDataset ℝ} {loss loss' : ℝ} {a a' : UInt64}
    (first : mf.calcLoss realLoss.toLossOps d (UInt32.ofNat 0) = .ok (loss, a))
    (second : mf.calcLoss realLoss.toLossOps d' (UInt32.ofNat d.data.length) = .ok (loss', a')) :
    ∃ count, mf.calcLoss realLoss.toLossOps (append d d') (UInt32.ofNat 0) = .ok (loss + loss', count) := by
  obtain ⟨s, looped, ends⟩ := Loops.ok_of_bind first
  obtain ⟨s', looped', ends'⟩ := Loops.ok_of_bind second
  obtain rfl : s = (loss, a) := Except.ok.inj ends
  obtain rfl : s' = (loss', a') := Except.ok.inj ends'
  have both := loop_append (f := fun s sample =>
    sample.1.foldlM (mf.addLoss realLoss.toLossOps (UInt64.ofNat sample.2 + (UInt32.ofNat 0).toUInt64)) s)
    UInt64.add_zero (fun sample _ s => rfl) (fun s sample => by dsimp only; rw [addRating_user (user_moved sample.2 d.data.length)])
    (fun s u sample => Loops.foldlM_focus (shift s) (addRating_shift _ s) sample.1 u) looped looped'
  exact ⟨a + a', (Loops.bind_of_ok both _).trans rfl⟩

end Ratings

/-- The minibatches are as the iterator makes them: with a label for each sample, or with so many users each. -/
def Task.Made (t : Task ℝ) : Prop :=
  ∀ ds ∈ t.minibatchesVec, if t.collaborative then ds.data.length = t.minibatchSize else ds.labels.length = ds.data.length

theorem concat_snoc (seen : List (SparseDataset ℝ)) (ds : SparseDataset ℝ) : concat (seen ++ [ds]) = append (concat seen) ds := by
  simp [concat, append]

theorem numFeatures_append (d d' : SparseDataset ℝ) : numFeatures (append d d') = numFeatures d + numFeatures d' := by
  simp [numFeatures, append]

theorem concat_size {t : Task ℝ} (made : t.Made) {seen : List (SparseDataset ℝ)} (known : ∀ ds ∈ seen, ds ∈ t.minibatchesVec) :
    if t.collaborative then (concat seen).data.length = t.minibatchSize * seen.length
      else (concat seen).labels.length = (concat seen).data.length := by
  induction seen with
  | nil =>
    split
    · rfl
    · rfl
  | cons ds rest ih =>
    obtain ⟨first, others⟩ := List.forall_mem_cons.mp known
    have one := made ds first
    have others := ih others
    have both : concat (ds :: rest) = append ds (concat rest) := by simp [concat, append]
    have size : (concat (ds :: rest)).data.length = ds.data.length + (concat rest).data.length := both ▸ List.length_append
    have labels : (concat (ds :: rest)).labels.length = ds.labels.length + (concat rest).labels.length :=
      both ▸ List.length_append
    split at one
    · rename_i collaborative
      rw [if_pos collaborative] at others ⊢
      rw [size, one, others, List.length_cons, Nat.mul_succ, Nat.add_comm]
    · rename_i collaborative
      rw [if_neg collaborative] at others ⊢
      rw [size, labels, one, others]

theorem after_concat {t : Task ℝ} (ops : t.ops = realLoss) (made : t.Made) {model : CirrusModel ℝ}
    (kind : model.isLeft = t.collaborative) {done : Nat} {sums : Sums ℝ} {total : ℝ}
    (summed : t.after model done = .ok (sums, total)) :
    (∃ accuracy, calcLoss realLoss model (concat (t.minibatchesVec.take done)) (UInt32.ofNat 0) = .ok (sums.totalLoss, accuracy)) ∧
      sums.totalNumSamples = (concat (t.minibatchesVec.take done)).data.length ∧
      sums.totalNumFeatures = numFeatures (concat (t.minibatchesVec.take done)) := by
  let P := fun (seen : List (SparseDataset ℝ)) (s : Sums ℝ × ℝ) =>
    (∃ accuracy, calcLoss realLoss model (concat seen) (UInt32.ofNat 0) = .ok (s.1.totalLoss, accuracy)) ∧
      s.1.totalNumSamples = (concat seen).data.length ∧ s.1.totalNumFeatures = numFeatures (concat seen) ∧
      s.1.startIndex = t.minibatchSize * seen.length
  have empty : ∃ accuracy, calcLoss realLoss model (concat []) (UInt32.ofNat 0) = .ok ((0 : ℝ), accuracy) := by
    cases model with
    | inl mf => exact ⟨_, rfl⟩
    | inr m => exact @lossOf_nonneg 0 (0, 0) (le_refl 0)
  have looped : P (t.minibatchesVec.take done) (sums, total) := by
    refine Loops.foldlM_ends ?_ ⟨empty, rfl, rfl, rfl⟩ summed
    intro seen ds here s u before one
    obtain ⟨⟨accuracy, whole⟩, samples, features, startIndex⟩ := before
    obtain ⟨⟨sums', more⟩, added, same⟩ := Loops.ok_of_bind one
    cases same
    obtain ⟨ret, computed, same⟩ := Loops.ok_of_bind added
    cases same
    rw [ops] at computed
    have size := concat_size made fun part member =>
      List.mem_of_mem_take (here.subset (List.mem_append_left [ds] member))
    refine ⟨?_, ?_, ?_, ?_⟩
    · rw [concat_snoc]
      cases model with
      | inl mf =>
        have collaborative : t.collaborative = true := kind.symm
        rw [if_pos collaborative] at size
        rw [startIndex, ← size] at computed
        cases whole_ : mf.calcLoss realLoss.toLossOps (concat seen) (UInt32.ofNat 0) with
        | error fault =>
          rw [calcLoss, whole_] at whole
          cases whole
        | ok first =>
          cases computed_ : mf.calcLoss realLoss.toLossOps ds (UInt32.ofNat (concat seen).data.length) with
          | error fault =>
            rw [calcLoss, computed_] at computed
            cases computed
          | ok second =>
            rw [calcLoss, whole_] at whole
            rw [calcLoss, computed_] at computed
            have before : first.1 = s.1.totalLoss := congrArg Prod.fst (Except.ok.inj whole)
            have more : second.1 = ret.1 := congrArg Prod.fst (Except.ok.inj computed)
            obtain ⟨count, both⟩ := mfLoss_append whole_ computed_
            rw [before, more] at both
            exact ⟨realLoss.ofNat count.toNat, congrArg (Except.map _) both⟩
      | inr m =>
        rw [if_neg (by rw [← kind]; exact Bool.false_ne_true)] at size
        exact lrLoss_append size whole computed
    · dsimp only
      rw [concat_snoc, samples]
      exact List.length_append.symm
    · dsimp only
      rw [concat_snoc, features, numFeatures_append]
    · dsimp only
      rw [startIndex, List.length_append, List.length_singleton, Nat.mul_succ]
  exact ⟨looped.1, looped.2.1, looped.2.2.1⟩

/-- The error over some minibatches as one dataset: the average loss, or the root of the average square. -/
def ErrorOver (t : Task ℝ) (model : CirrusModel ℝ) (error : ℝ) (parts : List (SparseDataset ℝ)) : Prop :=
  ∃ loss accuracy, calcLoss realLoss model (concat parts) (UInt32.ofNat 0) = .ok (loss, accuracy) ∧
    error = t.error loss (concat parts).data.length (numFeatures (concat parts))

structure Informs (t : Task ℝ) (h : History ℝ) (r : Reply ℝ) : Prop where
  known : r.times ≤ h.times.length
  time : r.lastTime = (h.times.take r.times).getLast?.getD 0
  noError : r.errors = 0 → r.lastError = 0
  error : ∀ k, r.errors = k + 1 → ∃ n model, h.errors[k]? = some n ∧ h.models[n]? = some model ∧
    ErrorOver t model r.lastError t.minibatchesVec
  skew : r.times ≤ r.errors + 1
  noCurrent : r.current = none → r.currError = 0
  current : ∀ n done, r.current = some (n, done) → 0 < done ∧ done ≤ t.minibatchesVec.length ∧
    ∃ model, h.models[n]? = some model ∧ ErrorOver t model r.currError (t.minibatchesVec.take done)

/-- Whenever the task is asked, and wherever its loop is between the reads of the three variables, the last error is that over
the whole test set at a model that it has had, and the current one that over the first minibatches; before there is such an
error it is 0, and no model's. The time can be of
another turn of the loop, but the error is at most one turn behind it, and later answers are about later turns. -/
theorem error_reports (t : Task ℝ) (exact : t.ops = realLoss) (made : t.Made) (s : State ℝ)
    (reached : Reachable t.step (· = start) anyStep s) :
    (∀ r ∈ s.replies, Informs t s.history r) ∧ s.replies.Pairwise Reply.Before ∧ s.history.errors.Pairwise (· < ·) ∧
      s.history.times.length = s.history.errors.length + s.timed := by
  have answers := answers_reachable reached
  refine ⟨fun r member => ?_, answers.ordered, answers.reported.increasing, answers.reported.counts⟩
  have holds := answers.holds r member
  have covers : ∀ n done sums total, Summed t s.history n done sums total → ∃ model, s.history.models[n]? = some model ∧
      ErrorOver t model (t.errorOf sums) (t.minibatchesVec.take done) := by
    intro n done sums total summed
    obtain ⟨model, there, kind, after⟩ := summed.some_model
    obtain ⟨⟨accuracy, whole⟩, samples, features⟩ := after_concat exact made kind after
    exact ⟨model, there, sums.totalLoss, accuracy, whole, by rw [Task.errorOf, samples, features]⟩
  refine ⟨holds.known, holds.time, fun none => ?_, fun k some => ?_, holds.skew, fun none => ?_, fun n done some => ?_⟩
  · have error := holds.error
    rw [none] at error
    exact error
  · have error := holds.error
    rw [some] at error
    obtain ⟨n, sums, total, stored, summed, same⟩ := error
    obtain ⟨model, there, whole⟩ := covers n _ sums total summed
    rw [List.take_length] at whole
    exact ⟨n, model, stored, there, same ▸ whole⟩
  · have current := holds.current
    rw [none] at current
    exact current
  · have current := holds.current
    rw [some] at current
    obtain ⟨positive, sums, total, summed, same⟩ := current
    obtain ⟨model, there, part⟩ := covers n done sums total summed
    exact ⟨positive, summed.done, model, there, same ▸ part⟩

end Exact

section Rated

def ratedModel : MFModel ℝ where
  nusers := 2
  nitems := 1
  nfactors := 0
  userWeights := []
  itemWeights := []
  userBias := [0, 1]
  itemBias := [0]
  globalBias := 0

def oneUser : SparseDataset ℝ := ⟨[[(0, 1)]], []⟩

noncomputable def ratedTask : Task ℝ where
  ops := realLoss
  collaborative := true
  minibatchSize := 1
  minibatchesVec := [oneUser, oneUser]
  testing := false
  iters := 0
  testThreshold := 0

theorem ratedTask_made : ratedTask.Made := by
  intro ds member
  rcases List.mem_cons.mp member with rfl | member
  · rfl
  · exact List.mem_singleton.mp member ▸ rfl

theorem addLoss_rated (sums : Sums ℝ) (prediction : ℝ)
    (predicted : ratedModel.predict (UInt64.ofNat 0 + (UInt32.ofNat sums.startIndex).toUInt64).toUInt32 0 = .ok prediction) :
    ratedTask.addLoss (.inl ratedModel) sums oneUser = .ok
      (⟨sums.totalLoss + (0 + (1 - prediction) ^ 2), sums.totalNumSamples + 1, sums.totalNumFeatures + 1,
        sums.startIndex + 1⟩, realLoss.ofNat 1) := by
  have one := @addRating_real ratedModel (UInt64.ofNat 0 + (UInt32.ofNat sums.startIndex).toUInt64) (0, 0) (0, 1)
  have found : (wide 0).toUInt32 = 0 := by decide
  rw [found, predicted] at one
  have loss : ratedModel.calcLoss realLoss.toLossOps oneUser (UInt32.ofNat sums.startIndex) =
      .ok (0 + (1 - prediction) ^ 2, 1) := by
    have row := (Loops.bind_of_ok one pure).trans rfl
    have rows := (Loops.bind_of_ok row pure).trans rfl
    exact (Loops.bind_of_ok rows _).trans rfl
  have ret := congrArg (Except.map fun ret : ℝ × UInt64 => (ret.1, realLoss.ofNat ret.2.toNat)) loss
  exact (Loops.bind_of_ok ret _).trans rfl

theorem first_added : ratedTask.addLoss (.inl ratedModel) ⟨0, 0, 0, 0⟩ oneUser = .ok (⟨1, 1, 1, 1⟩, realLoss.ofNat 1) := by
  have added := addLoss_rated ⟨0, 0, 0, 0⟩ (0 + 0 + 0) rfl
  norm_num at added
  exact added

theorem second_added : ratedTask.addLoss (.inl ratedModel) ⟨1, 1, 1, 1⟩ oneUser = .ok (⟨1, 2, 2, 2⟩, realLoss.ofNat 1) := by
  have added := addLoss_rated ⟨1, 1, 1, 1⟩ (0 + 1 + 0) rfl
  norm_num at added
  exact added

theorem calcLoss_taken {t : Task ℝ} {s : State ℝ} {model : CirrusModel ℝ} {done : Nat} {sums sums' : Sums ℝ}
    {ds : SparseDataset ℝ} {accuracy : ℝ} (added : t.addLoss model sums ds = .ok (sums', accuracy)) :
    t.calcLoss s model done sums ds = some { s with
      totalAccuracy := s.totalAccuracy + accuracy
      currError := t.errorOf sums'
      current := some (s.history.last, done + 1)
      place := .losses model (done + 1) sums' } := by
  rw [Task.calcLoss, added]

theorem check_untested {t : Task ℝ} {s : State ℝ} (untested : t.testing = false) (place : s.place = .loop) :
    t.step s .check = some { s with place := .getModel } := by
  have never : ∀ p : Prop, ¬ (p ∧ t.testing = true) := fun p both => by
    rw [untested] at both
    cases both.2
  unfold Task.step
  dsimp only
  rw [place]
  dsimp only
  rw [if_neg (never _), if_neg (never _)]

theorem error_reports_rated : ∃ s : State ℝ, ((∀ r ∈ s.replies, Informs ratedTask s.history r) ∧ s.replies.Pairwise Reply.Before ∧
      s.history.errors.Pairwise (· < ·) ∧ s.history.times.length = s.history.errors.length + s.timed) ∧
    s.replies.map (fun r => (r.times, r.errors, r.current)) = [(0, 0, some (0, 1)), (1, 1, some (0, 2))] := by
  obtain ⟨s, ran, replies⟩ : ∃ s, follow ratedTask.step start [.check, .getModel (some (.inl ratedModel)), .readTime, .calcLoss,
      .readError, .readCurrent, .calcLoss, .storeTime 1, .readTime, .storeError, .readError, .readCurrent] = some s ∧
      s.replies.map (fun r => (r.times, r.errors, r.current)) = [(0, 0, some (0, 1)), (1, 1, some (0, 2))] := by
    apply Exists.intro
    constructor
    · rw [follow_cons (check_untested rfl rfl), follow_cons rfl, follow_cons rfl, follow_cons (calcLoss_taken first_added), follow_cons rfl,
        follow_cons rfl, follow_cons (calcLoss_taken second_added)]
      rfl
    · rfl
  exact ⟨s, error_reports ratedTask rfl ratedTask_made s (Reachable.follow (.start rfl) ran), replies⟩

end Rated

end ErrorReports

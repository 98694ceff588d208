import Cirrus.MinMaxBounds
import Cirrus.Lib.Transition
import Mathlib.Algebra.Order.Field.Rat

/-!
The Lambda invocations of a min-max scaling that share one Redis: those that
push the bounds of a chunk, with up to four threads each, and those that read
the bounds back and scale a chunk. A script and an `mget` are atomic.
-/
namespace MinMax
open LambdaData Transition
variable {C I F : Type}

inductive Job (C : Type)
  | bounds (chunk : C)
  | scale (chunk : C)
  deriving DecidableEq

structure Scaling (C I F : Type) where
  data : C → Rows Int F
  job : I → Job C
  keyslot : Text → Nat
  minV : F
  maxV : F

abbrev Batch (F : Type) := List (Text × F)

/-- `push_threads`, where a thread that has ended is `none`. -/
abbrev PushThreads (F : Type) := List (Option (Batch F))

inductive Place (F : Type)
  | starting
  | pushing (kvs : Bound → Batch F) (bound : Bound) (slots : List (Batch F)) (threads : PushThreads F)
  | fetching (original : List Text) (res : Bound → Option (List (Option F)))
  | scaling (bounds : Bounds Text (Option F))
  | done

/-- Redis, the objects `_final_bounds` and the objects of the output bucket, with the place of each invocation. -/
structure State (C I F : Type) where
  redis : Text → Option F
  finalBounds : C → Option (Bounds Text F)
  output : C → Option (Rows Text F)
  place : I → Place F

/-- Who moves inside an invocation: its main thread, a thread that pushes a batch, or one that reads a bound. -/
inductive Actor
  | main
  | push (k : Nat)
  | mget (bound : Bound)

section Steps
variable [LinearOrder F] [Field F] [DecidableEq C] [DecidableEq I]

/-- `put_bounds_in_db` in the main thread. At four threads it waits for the oldest. -/
def Scaling.stepBounds (sys : Scaling C I F) (s : State C I F) (i : I) (chunk : C) : Option (State C I F) :=
  let goes (place : Place F) (s : State C I F) := { s with place := Function.update s.place i place }
  match s.place i with
  | .starting =>
    let bounds := getDataBounds (sys.data chunk)
    match getKeysValues bounds with
    | .ok kvs => some (goes (.pushing kvs .max (slotBatches sys.keyslot (kvs .max)) [])
        { s with finalBounds := Function.update s.finalBounds chunk (some (json bounds)) })
    | .error _ => none
  | .pushing kvs bound (slot :: slots) threads =>
    if threads.length < 4 then some (goes (.pushing kvs bound slots (threads ++ [some slot])) s)
    else
      match threads with
      | none :: threads => some (goes (.pushing kvs bound (slot :: slots) threads) s)
      | _ => none
  | .pushing kvs bound [] threads =>
    if ∀ thread ∈ threads, thread.isNone then
      match bound with
      | .max => some (goes (.pushing kvs .min (slotBatches sys.keyslot (kvs .min)) []) s)
      | .min => some (goes .done s)
    else none
  | _ => none

/-- `get_global_bounds` and `scale_data` in the main thread. -/
def Scaling.stepScale (sys : Scaling C I F) (s : State C I F) (i : I) (chunk : C) : Option (State C I F) :=
  let goes (place : Place F) (s : State C I F) := { s with place := Function.update s.place i place }
  match s.place i with
  | .starting => (s.finalBounds chunk).map fun bounds => goes (.fetching (bounds .max).keys fun _ => none) s
  | .fetching original res =>
    match res .max, res .min with
    | some maxV, some minV => some (goes (.scaling (finalBounds original (both maxV minV))) s)
    | _, _ => none
  | .scaling bounds =>
    match scaleData (sys.data chunk) bounds sys.minV sys.maxV with
    | .ok rows => some (goes .done { s with output := Function.update s.output chunk (some rows) })
    | .error _ => none
  | _ => none

def Scaling.step (sys : Scaling C I F) (s : State C I F) : I × Actor → Option (State C I F)
  | (i, .main) =>
    match sys.job i with
    | .bounds chunk => sys.stepBounds s i chunk
    | .scale chunk => sys.stepScale s i chunk
  | (i, .push k) =>
    match s.place i with
    | .pushing kvs bound slots threads =>
      match threads[k]? with
      | some (some batch) => some { s with
          redis := bound.better.pushAll s.redis batch
          place := Function.update s.place i (.pushing kvs bound slots (threads.set k none)) }
      | _ => none
    | _ => none
  | (i, .mget bound) =>
    match s.place i with
    | .fetching original res =>
      match res bound, mget s.redis bound original with
      | none, .ok values => some { s with
          place := Function.update s.place i (.fetching original (Function.update res bound (some values))) }
      | _, _ => none
    | _ => none

end Steps

/-- Redis has no bound. What the buckets have does not matter. -/
def AtStart (s : State C I F) : Prop :=
  (∀ (bound : Bound) idx, s.redis (bound.key (str idx)) = none) ∧ ∀ i, s.place i = .starting

def Scaling.AllPushed (sys : Scaling C I F) (s : State C I F) : Prop :=
  ∀ chunk, ∃ i, sys.job i = .bounds chunk ∧ s.place i = .done

def Scaling.InOrder (sys : Scaling C I F) (s : State C I F) (l : I × Actor) : Prop :=
  ∀ chunk, sys.job l.1 = .scale chunk → s.place l.1 = .starting → sys.AllPushed s

instance (p : Place F) : Decidable (p = .starting) :=
  match p with
  | .starting => isTrue rfl
  | .pushing _ _ _ _ | .fetching _ _ | .scaling _ | .done => isFalse nofun

instance (p : Place F) : Decidable (p = .done) :=
  match p with
  | .done => isTrue rfl
  | .pushing _ _ _ _ | .fetching _ _ | .scaling _ | .starting => isFalse nofun

instance [Fintype C] [Fintype I] [DecidableEq C] (sys : Scaling C I F) (s : State C I F) (l : I × Actor) :
    Decidable (sys.InOrder s l) :=
  inferInstanceAs (Decidable (∀ chunk, sys.job l.1 = .scale chunk → s.place l.1 = .starting →
    ∀ chunk, ∃ i, sys.job i = .bounds chunk ∧ s.place i = .done))

def Scaling.column (sys : Scaling C I F) (idx : Int) : Set F := {v | ∃ chunk, (idx, v) ∈ (sys.data chunk).flatten}

/-- The minimum and the maximum of each column that has entries. -/
structure Extremes [Preorder F] (column : Int → Set F) (best : Bound → Int → F) : Prop where
  greatest : ∀ idx, (column idx).Nonempty → IsGreatest (column idx) (best .max idx)
  least : ∀ idx, (column idx).Nonempty → IsLeast (column idx) (best .min idx)

def Scaling.Splits (sys : Scaling C I F) (dataset : Rows Int F) : Prop :=
  ∀ row, (∃ chunk, row ∈ sys.data chunk) ↔ row ∈ dataset

def column (dataset : Rows Int F) (idx : Int) : Set F := {v | (idx, v) ∈ dataset.flatten}

theorem column_of_splits {sys : Scaling C I F} {dataset : Rows Int F} (splits : sys.Splits dataset) :
    sys.column = column dataset := by
  ext idx v
  constructor
  · rintro ⟨chunk, member⟩
    obtain ⟨row, inside, entry⟩ := List.mem_flatten.mp member
    exact List.mem_flatten.mpr ⟨row, (splits row).mp ⟨chunk, inside⟩, entry⟩
  · intro member
    obtain ⟨row, inside, entry⟩ := List.mem_flatten.mp member
    obtain ⟨chunk, here⟩ := (splits row).mpr inside
    exact ⟨chunk, List.mem_flatten.mpr ⟨row, here, entry⟩⟩

section Runs

theorem mem_of_set_none {threads : PushThreads F} {k : Nat} {batch : Batch F}
    (member : some batch ∈ threads.set k none) : some batch ∈ threads := by
  rcases List.mem_or_eq_of_mem_set member with before | equal
  · exact before
  · cases equal

variable [LinearOrder F]

def Scaling.columns (sys : Scaling C I F) (chunk : C) : List Int := (getDataBounds (sys.data chunk) .max).keys

def Scaling.Published (sys : Scaling C I F) (s : State C I F) (chunk : C) : Prop :=
  s.finalBounds chunk = some (json (getDataBounds (sys.data chunk)))

def Scaling.Pushed (sys : Scaling C I F) (s : State C I F) (chunk : C) : Prop :=
  ∀ bound : Bound, ∀ e ∈ (sys.data chunk).flatten, bound.better.Covers s.redis (bound.key (str e.1), e.2)

structure Pushing (sys : Scaling C I F) (s : State C I F) (chunk : C) (kvs : Bound → Batch F) (bound : Bound)
    (slots : List (Batch F)) (threads : PushThreads F) : Prop where
  published : sys.Published s chunk
  pairs : ∀ (b : Bound) e, e ∈ kvs b ↔
    ∃ idx v, (getDataBounds (sys.data chunk) b).get? idx = some v ∧ e = (b.key (str idx), v)
  before : bound = .min → ∀ e ∈ kvs .max, Bound.max.better.Covers s.redis e
  owed : ∀ e ∈ kvs bound, (∃ batch ∈ slots, e ∈ batch) ∨ (∃ batch, some batch ∈ threads ∧ e ∈ batch) ∨
    bound.better.Covers s.redis e
  own : ∀ batch, batch ∈ slots ∨ some batch ∈ threads → ∀ e ∈ batch, e ∈ kvs bound

def Scaling.ReadBack (sys : Scaling C I F) (best : Bound → Int → F) (chunk : C) (bounds : Bounds Text (Option F)) : Prop :=
  ∀ (b : Bound), ∀ e ∈ (sys.data chunk).flatten, (bounds b).get? (str e.1) = some (some (best b e.1))

theorem Pushing.key_form {sys : Scaling C I F} {s : State C I F} {chunk : C} {kvs : Bound → Batch F} {bound : Bound}
    {slots : List (Batch F)} {threads : PushThreads F} (pushing : Pushing sys s chunk kvs bound slots threads)
    {b : Bound} {e : Text × F} (member : e ∈ kvs b) :
    ∃ idx v, (idx, v) ∈ (sys.data chunk).flatten ∧ e = (b.key (str idx), v) := by
  obtain ⟨idx, v, found, form⟩ := (pushing.pairs b e).mp member
  exact ⟨idx, v, getDataBounds_source found, form⟩

theorem entry_covered {data : Rows Int F} {bound : Bound} {redis : Text → Option F} {kvs : Batch F}
    (pairs : ∀ e, e ∈ kvs ↔ ∃ idx v, (getDataBounds data bound).get? idx = some v ∧ e = (bound.key (str idx), v))
    (covered : ∀ e ∈ kvs, bound.better.Covers redis e) {e : Int × F} (member : e ∈ data.flatten) :
    bound.better.Covers redis (bound.key (str e.1), e.2) := by
  obtain ⟨v, found, worse⟩ := getDataBounds_covers bound member
  obtain ⟨w, here, worse'⟩ := covered (bound.key (str e.1), v) ((pairs _).mpr ⟨e.1, v, found, rfl⟩)
  refine ⟨w, here, ?_⟩
  cases bound with
  | max => exact not_lt.mpr ((not_lt.mp worse).trans (not_lt.mp worse'))
  | min => exact not_lt.mpr ((not_lt.mp worse').trans (not_lt.mp worse))

theorem redis_best {sys : Scaling C I F} {best : Bound → Int → F} {s : State C I F} (extremes : Extremes sys.column best)
    (source : ∀ (b : Bound) idx v, s.redis (b.key (str idx)) = some v → v ∈ sys.column idx)
    (pushed : ∀ chunk, sys.Pushed s chunk) (b : Bound) {idx : Int} (occurs : (sys.column idx).Nonempty) :
    s.redis (b.key (str idx)) = some (best b idx) := by
  have covers : ∀ v ∈ sys.column idx, b.better.Covers s.redis (b.key (str idx), v) := by
    rintro v ⟨chunk, member⟩
    exact pushed chunk b (idx, v) member
  obtain ⟨v, member⟩ := occurs
  obtain ⟨current, here, _⟩ := covers v member
  rw [here]
  cases b with
  | max =>
    have greatest := Better.isGreatest_of_covers here (source .max idx current here) covers
    exact congrArg some (greatest.unique (extremes.greatest idx ⟨v, member⟩))
  | min =>
    have least := Better.isLeast_of_covers here (source .min idx current here) covers
    exact congrArg some (least.unique (extremes.least idx ⟨v, member⟩))

theorem mem_columns {sys : Scaling C I F} {chunk : C} {idx : Int} :
    idx ∈ sys.columns chunk ↔ ∃ v, (idx, v) ∈ (sys.data chunk).flatten := mem_keys_getDataBounds

theorem finalBounds_readBack {sys : Scaling C I F} {best : Bound → Int → F} {chunk : C} {values : Bound → List (Option F)}
    (got : ∀ b, values b = (sys.columns chunk).map fun idx => some (best b idx)) :
    sys.ReadBack best chunk (finalBounds ((sys.columns chunk).map str) values) := by
  intro b e member
  have pairs : ((sys.columns chunk).map str).zip (values b) =
      (sys.columns chunk).map fun idx => (str idx, some (best b idx)) := by
    rw [got, List.zip_map']
  have distinct : (((sys.columns chunk).map fun idx => (str idx, some (best b idx))).map Prod.fst).Nodup := by
    rw [List.map_map]
    exact (getDataBounds (sys.data chunk) .max).nodup.map str_injective
  unfold finalBounds
  rw [pairs, Dict.get?_ofList distinct]
  exact List.mem_map.mpr ⟨e.1, mem_columns.mpr ⟨e.2, member⟩, rfl⟩

theorem push_covers {sys : Scaling C I F} {s : State C I F} {chunk : C} {kvs : Bound → Batch F} {bound : Bound}
    {slots : List (Batch F)} {threads : PushThreads F} (pushing : Pushing sys s chunk kvs bound slots threads)
    {batch : Batch F} (own : ∀ e ∈ batch, e ∈ kvs bound) {b : Bound} {idx : Text} {v : F}
    (covers : b.better.Covers s.redis (b.key idx, v)) :
    b.better.Covers (bound.better.pushAll s.redis batch) (b.key idx, v) := by
  by_cases same : b = bound
  · rw [← same]
    exact covers.pushAll batch
  · apply covers.congr
    apply Better.pushAll_of_absent
    intro e member equal
    obtain ⟨idx', v', _, rfl⟩ := pushing.key_form (own e member)
    exact same (key_injective equal).1

theorem pushing_start {sys : Scaling C I F} {s : State C I F} {chunk : C} {kvs : Bound → Batch F} (bound : Bound)
    (published : sys.Published s chunk)
    (pairs : ∀ (b : Bound) e, e ∈ kvs b ↔
      ∃ idx v, (getDataBounds (sys.data chunk) b).get? idx = some v ∧ e = (b.key (str idx), v))
    (before : bound = .min → ∀ e ∈ kvs .max, Bound.max.better.Covers s.redis e) :
    Pushing sys s chunk kvs bound (slotBatches sys.keyslot (kvs bound)) [] where
  published := published
  pairs := pairs
  before := before
  owed e member := .inl ((mem_slotBatches sys.keyslot (kvs bound) e).mpr member)
  own batch known e member :=
    (mem_slotBatches sys.keyslot (kvs bound) e).mp ⟨batch, known.resolve_right nofun, member⟩

theorem Pushing.all_pushed {sys : Scaling C I F} {s : State C I F} {chunk : C} {kvs : Bound → Batch F} {bound : Bound}
    {threads : PushThreads F} (pushing : Pushing sys s chunk kvs bound [] threads)
    (ended : ∀ batch, some batch ∉ threads) : ∀ e ∈ kvs bound, bound.better.Covers s.redis e := by
  intro e member
  rcases pushing.owed e member with ⟨batch, none, _⟩ | ⟨batch, running, _⟩ | covers
  · cases none
  · exact (ended batch running).elim
  · exact covers

theorem Pushing.push {sys : Scaling C I F} {t : State C I F} {chunk : C} {kvs : Bound → Batch F} {bound : Bound}
    {slots : List (Batch F)} {threads : PushThreads F} {k : Nat} {batch : Batch F}
    (pushing : Pushing sys t chunk kvs bound slots threads) (thread : threads[k]? = some (some batch))
    (covered : ∀ e ∈ batch, bound.better.Covers t.redis e) : Pushing sys t chunk kvs bound slots (threads.set k none) where
  published := pushing.published
  pairs := pushing.pairs
  before := pushing.before
  owed e member := by
    rcases pushing.owed e member with later | ⟨other, running, inside⟩ | covers
    · exact .inl later
    · obtain ⟨j, found⟩ := List.mem_iff_getElem?.mp running
      by_cases same : j = k
      · rw [same, thread] at found
        cases found
        exact .inr (.inr (covered e inside))
      · refine .inr (.inl ⟨other, List.mem_of_getElem? (i := j) ?_, inside⟩)
        rw [List.getElem?_set_ne (fun equal => same equal.symm), found]
    · exact .inr (.inr covers)
  own other known := pushing.own other (known.imp_right mem_of_set_none)

variable [Field F]

def Scaling.whole (sys : Scaling C I F) (best : Bound → Int → F) (chunk : C) : Rows Text F :=
  (sys.data chunk).map fun row => row.map fun e =>
    (str e.1, scaled sys.minV sys.maxV (best .min e.1) (best .max e.1) e.2)

def PlaceFits (sys : Scaling C I F) (best : Bound → Int → F) (s : State C I F) : Job C → Place F → Prop
  | _, .starting => True
  | .bounds chunk, .pushing kvs bound slots threads => Pushing sys s chunk kvs bound slots threads
  | .bounds chunk, .done => sys.Published s chunk ∧ sys.Pushed s chunk
  | .scale chunk, .fetching original res => (∀ c, sys.Published s c ∧ sys.Pushed s c) ∧
      original = (sys.columns chunk).map str ∧
      ∀ (b : Bound) values, res b = some values → values = (sys.columns chunk).map fun idx => some (best b idx)
  | .scale chunk, .scaling bounds => sys.ReadBack best chunk bounds
  | .scale chunk, .done => s.output chunk = some (sys.whole best chunk)
  | _, _ => False

structure Fits (sys : Scaling C I F) (best : Bound → Int → F) (s : State C I F) : Prop where
  source : ∀ (b : Bound) idx v, s.redis (b.key (str idx)) = some v → v ∈ sys.column idx
  place : ∀ i, PlaceFits sys best s (sys.job i) (s.place i)

structure Grows (sys : Scaling C I F) (best : Bound → Int → F) (s t : State C I F) : Prop where
  covers : ∀ (b : Bound) idx v, b.better.Covers s.redis (b.key idx, v) → b.better.Covers t.redis (b.key idx, v)
  published : ∀ chunk, sys.Published s chunk → sys.Published t chunk
  output : ∀ chunk, s.output chunk = some (sys.whole best chunk) → t.output chunk = some (sys.whole best chunk)

theorem Grows.pushed {sys : Scaling C I F} {best : Bound → Int → F} {s t : State C I F} (grows : Grows sys best s t)
    {chunk : C} (pushed : sys.Pushed s chunk) : sys.Pushed t chunk :=
  fun b e member => grows.covers b _ _ (pushed b e member)

theorem Grows.pair {sys : Scaling C I F} {best : Bound → Int → F} {s t : State C I F} (grows : Grows sys best s t)
    {chunk : C} {kvs : Bound → Batch F} {bound : Bound} {slots : List (Batch F)} {threads : PushThreads F}
    (pushing : Pushing sys s chunk kvs bound slots threads) {b : Bound} {e : Text × F} (member : e ∈ kvs b)
    (covers : b.better.Covers s.redis e) : b.better.Covers t.redis e := by
  obtain ⟨idx, v, _, rfl⟩ := pushing.key_form member
  exact grows.covers b _ _ covers

theorem Grows.pushing {sys : Scaling C I F} {best : Bound → Int → F} {s t : State C I F} (grows : Grows sys best s t)
    {chunk : C} {kvs : Bound → Batch F} {bound : Bound} {slots : List (Batch F)} {threads : PushThreads F}
    (pushing : Pushing sys s chunk kvs bound slots threads) : Pushing sys t chunk kvs bound slots threads where
  published := grows.published chunk pushing.published
  pairs := pushing.pairs
  before second e member := grows.pair pushing member (pushing.before second e member)
  owed e member := (pushing.owed e member).imp_right (Or.imp_right (grows.pair pushing member))
  own := pushing.own

theorem PlaceFits.mono {sys : Scaling C I F} {best : Bound → Int → F} {s t : State C I F} (grows : Grows sys best s t)
    {job : Job C} {place : Place F} (fits : PlaceFits sys best s job place) : PlaceFits sys best t job place := by
  cases job with
  | bounds chunk =>
    cases place with
    | starting => trivial
    | pushing kvs bound slots threads => exact grows.pushing fits
    | fetching original res => exact fits
    | scaling bounds => exact fits
    | done => exact ⟨grows.published chunk fits.1, grows.pushed fits.2⟩
  | scale chunk =>
    cases place with
    | starting => trivial
    | pushing kvs bound slots threads => exact fits
    | fetching original res =>
      exact ⟨fun c => ⟨grows.published c (fits.1 c).1, grows.pushed (fits.1 c).2⟩, fits.2⟩
    | scaling bounds => exact fits
    | done => exact grows.output chunk fits

theorem PlaceFits.of_pushing {sys : Scaling C I F} {best : Bound → Int → F} {s : State C I F} {job : Job C}
    {kvs : Bound → Batch F} {bound : Bound} {slots : List (Batch F)} {threads : PushThreads F}
    (fits : PlaceFits sys best s job (.pushing kvs bound slots threads)) :
    ∃ chunk, job = .bounds chunk ∧ Pushing sys s chunk kvs bound slots threads := by
  cases job with
  | bounds chunk => exact ⟨chunk, rfl, fits⟩
  | scale chunk => exact fits.elim

theorem PlaceFits.of_fetching {sys : Scaling C I F} {best : Bound → Int → F} {s : State C I F} {job : Job C}
    {original : List Text} {res : Bound → Option (List (Option F))}
    (fits : PlaceFits sys best s job (.fetching original res)) :
    ∃ chunk, job = .scale chunk ∧ (∀ c, sys.Published s c ∧ sys.Pushed s c) ∧
      original = (sys.columns chunk).map str ∧
      ∀ (b : Bound) values, res b = some values → values = (sys.columns chunk).map fun idx => some (best b idx) := by
  cases job with
  | bounds chunk => exact fits.elim
  | scale chunk => exact ⟨chunk, rfl, fits⟩

theorem scaled_whole {sys : Scaling C I F} {best : Bound → Int → F} {chunk : C} {bounds : Bounds Text (Option F)}
    (readBack : sys.ReadBack best chunk bounds) :
    scaleData (sys.data chunk) bounds sys.minV sys.maxV = .ok (sys.whole best chunk) :=
  scaleData_ok (fun e member => ⟨readBack .min e member, readBack .max e member⟩) sys.minV sys.maxV

variable [DecidableEq I]

theorem fits_place {sys : Scaling C I F} {best : Bound → Int → F} {s t : State C I F} {i : I} {new : Place F}
    (fits : Fits sys best s) (grows : Grows sys best s t) (place : t.place = Function.update s.place i new)
    (source : ∀ (b : Bound) idx v, t.redis (b.key (str idx)) = some v → v ∈ sys.column idx)
    (here : PlaceFits sys best t (sys.job i) new) : Fits sys best t := by
  refine ⟨source, fun j => ?_⟩
  rw [place]
  by_cases same : j = i
  · rw [same, Function.update_self]
    exact here
  · rw [Function.update_of_ne same]
    exact (fits.place j).mono grows

variable [DecidableEq C]

inductive Moves (sys : Scaling C I F) (s : State C I F) (i : I) : State C I F → Prop where
  | begin {chunk : C} {kvs : Bound → Batch F} (job : sys.job i = .bounds chunk) (here : s.place i = .starting)
      (got : getKeysValues (getDataBounds (sys.data chunk)) = .ok kvs) :
      Moves sys s i { s with
        finalBounds := Function.update s.finalBounds chunk (some (json (getDataBounds (sys.data chunk))))
        place := Function.update s.place i (.pushing kvs .max (slotBatches sys.keyslot (kvs .max)) []) }
  | spawn {chunk : C} {kvs : Bound → Batch F} {bound : Bound} {slot : Batch F} {slots : List (Batch F)}
      {threads : PushThreads F} (job : sys.job i = .bounds chunk)
      (here : s.place i = .pushing kvs bound (slot :: slots) threads) :
      Moves sys s i { s with place := Function.update s.place i (.pushing kvs bound slots (threads ++ [some slot])) }
  | join {chunk : C} {kvs : Bound → Batch F} {bound : Bound} {slots : List (Batch F)} {threads : PushThreads F}
      (job : sys.job i = .bounds chunk) (here : s.place i = .pushing kvs bound slots (none :: threads)) :
      Moves sys s i { s with place := Function.update s.place i (.pushing kvs bound slots threads) }
  | next {chunk : C} {kvs : Bound → Batch F} {threads : PushThreads F} (job : sys.job i = .bounds chunk)
      (here : s.place i = .pushing kvs .max [] threads) (ended : ∀ batch, some batch ∉ threads) :
      Moves sys s i { s with
        place := Function.update s.place i (.pushing kvs .min (slotBatches sys.keyslot (kvs .min)) []) }
  | finish {chunk : C} {kvs : Bound → Batch F} {threads : PushThreads F} (job : sys.job i = .bounds chunk)
      (here : s.place i = .pushing kvs .min [] threads) (ended : ∀ batch, some batch ∉ threads) :
      Moves sys s i { s with place := Function.update s.place i .done }
  | push {kvs : Bound → Batch F} {bound : Bound} {slots : List (Batch F)} {threads : PushThreads F} {k : Nat}
      {batch : Batch F} (here : s.place i = .pushing kvs bound slots threads) (thread : threads[k]? = some (some batch)) :
      Moves sys s i { s with
        redis := bound.better.pushAll s.redis batch
        place := Function.update s.place i (.pushing kvs bound slots (threads.set k none)) }
  | read {chunk : C} {bounds : Bounds Text F} (job : sys.job i = .scale chunk) (here : s.place i = .starting)
      (found : s.finalBounds chunk = some bounds) :
      Moves sys s i { s with place := Function.update s.place i (.fetching (bounds .max).keys fun _ => none) }
  | mget {original : List Text} {res : Bound → Option (List (Option F))} {bound : Bound} {values : List (Option F)}
      (here : s.place i = .fetching original res) (got : MinMax.mget s.redis bound original = .ok values) :
      Moves sys s i { s with
        place := Function.update s.place i (.fetching original (Function.update res bound (some values))) }
  | combine {chunk : C} {original : List Text} {res : Bound → Option (List (Option F))} {maxV minV : List (Option F)}
      (job : sys.job i = .scale chunk) (here : s.place i = .fetching original res) (highest : res .max = some maxV)
      (lowest : res .min = some minV) :
      Moves sys s i { s with place := Function.update s.place i (.scaling (finalBounds original (both maxV minV))) }
  | scale {chunk : C} {bounds : Bounds Text (Option F)} {rows : Rows Text F} (job : sys.job i = .scale chunk)
      (here : s.place i = .scaling bounds) (done : scaleData (sys.data chunk) bounds sys.minV sys.maxV = .ok rows) :
      Moves sys s i { s with
        output := Function.update s.output chunk (some rows)
        place := Function.update s.place i .done }

theorem stepBounds_moves {sys : Scaling C I F} {s t : State C I F} {i : I} {chunk : C} (job : sys.job i = .bounds chunk)
    (taken : sys.stepBounds s i chunk = some t) : Moves sys s i t := by
  unfold Scaling.stepBounds at taken
  dsimp only at taken
  split at taken
  case h_1 here =>
    split at taken
    next kvs got =>
      cases taken
      exact .begin job here got
    next => cases taken
  case h_2 kvs bound slot slots threads here =>
    split at taken
    next =>
      cases taken
      exact .spawn job here
    next =>
      split at taken
      next threads =>
        cases taken
        exact .join job here
      next => cases taken
  case h_3 kvs bound threads here =>
    split at taken
    next all =>
      have ended : ∀ batch, some batch ∉ threads := fun batch member => absurd (all _ member) Bool.false_ne_true
      cases bound with
      | max =>
        cases taken
        exact .next job here ended
      | min =>
        cases taken
        exact .finish job here ended
    next => cases taken
  case h_4 => cases taken

theorem stepScale_moves {sys : Scaling C I F} {s t : State C I F} {i : I} {chunk : C} (job : sys.job i = .scale chunk)
    (taken : sys.stepScale s i chunk = some t) : Moves sys s i t := by
  unfold Scaling.stepScale at taken
  dsimp only at taken
  split at taken
  case h_1 here =>
    obtain ⟨bounds, found, same⟩ := Option.map_eq_some_iff.mp taken
    cases same
    exact .read job here found
  case h_2 original res here =>
    split at taken
    next maxV minV highest lowest =>
      cases taken
      exact .combine job here highest lowest
    next => cases taken
  case h_3 bounds here =>
    split at taken
    next rows done =>
      cases taken
      exact .scale job here done
    next => cases taken
  case h_4 => cases taken

theorem step_moves {sys : Scaling C I F} {s t : State C I F} {i : I} {actor : Actor}
    (taken : sys.step s (i, actor) = some t) : Moves sys s i t := by
  cases actor with
  | main =>
    unfold Scaling.step at taken
    dsimp only at taken
    split at taken
    next chunk job => exact stepBounds_moves job taken
    next chunk job => exact stepScale_moves job taken
  | push k =>
    unfold Scaling.step at taken
    dsimp only at taken
    split at taken
    next kvs bound slots threads here =>
      split at taken
      next batch thread =>
        cases taken
        exact .push here thread
      next => cases taken
    next => cases taken
  | mget bound =>
    unfold Scaling.step at taken
    dsimp only at taken
    split at taken
    next original res here =>
      split at taken
      next values fresh got =>
        cases taken
        exact .mget here got
      next => cases taken
    next => cases taken

theorem moves_grows {sys : Scaling C I F} {best : Bound → Int → F} {s t : State C I F} {i : I} (fits : Fits sys best s)
    (move : Moves sys s i t) : Grows sys best s t := by
  have place := fits.place i
  cases move with
  | @begin chunk kvs job here got =>
    refine ⟨fun _ _ _ covers => covers, fun c published => ?_, fun _ same => same⟩
    unfold Scaling.Published
    by_cases same : c = chunk
    · rw [same]
      exact Function.update_self ..
    · exact (Function.update_of_ne same ..).trans published
  | @push kvs bound slots threads k batch here thread =>
    rw [here] at place
    obtain ⟨chunk, _, pushing⟩ := place.of_pushing
    have own := pushing.own batch (.inr (List.mem_of_getElem? thread))
    exact ⟨fun _ _ _ covers => push_covers pushing own covers, fun _ published => published, fun _ same => same⟩
  | @scale chunk bounds rows job here done =>
    rw [here, job] at place
    have whole := done.symm.trans (scaled_whole place)
    refine ⟨fun _ _ _ covers => covers, fun _ published => published, fun c same => ?_⟩
    by_cases equal : c = chunk
    · rw [equal]
      exact (Function.update_self ..).trans (congrArg some (Except.ok.inj whole))
    · exact (Function.update_of_ne equal ..).trans same
  | _ => exact ⟨fun _ _ _ covers => covers, fun _ published => published, fun _ same => same⟩

theorem fits_moves {sys : Scaling C I F} {best : Bound → Int → F} {s t : State C I F} {i : I} {actor : Actor}
    (extremes : Extremes sys.column best) (fits : Fits sys best s) (permitted : sys.InOrder s (i, actor))
    (move : Moves sys s i t) : Fits sys best t := by
  have grows := moves_grows fits move
  have place := fits.place i
  cases move with
  | @begin chunk kvs job here got =>
    obtain ⟨kvs', got', pairs⟩ := getKeysValues_data (sys.data chunk)
    obtain rfl : kvs' = kvs := Except.ok.inj (got'.symm.trans got)
    refine fits_place fits grows rfl fits.source ?_
    rw [job]
    exact pushing_start .max (Function.update_self ..) pairs nofun
  | @spawn chunk kvs bound slot slots threads job here =>
    refine fits_place fits grows rfl fits.source ?_
    rw [here, job] at place
    rw [job]
    obtain ⟨published, pairs, before, owed, own⟩ := grows.pushing place
    refine ⟨published, pairs, before, fun e member => ?_, fun batch known => ?_⟩
    · rcases owed e member with ⟨batch, later, inside⟩ | ⟨batch, running, inside⟩ | covers
      · rcases List.mem_cons.mp later with rfl | later
        · exact .inr (.inl ⟨_, List.mem_append_right _ List.mem_cons_self, inside⟩)
        · exact .inl ⟨batch, later, inside⟩
      · exact .inr (.inl ⟨batch, List.mem_append_left _ running, inside⟩)
      · exact .inr (.inr covers)
    · rcases known with later | running
      · exact own batch (.inl (List.mem_cons_of_mem slot later))
      · rcases List.mem_append.mp running with running | last
        · exact own batch (.inr running)
        · cases List.mem_singleton.mp last
          exact own slot (.inl List.mem_cons_self)
  | @join chunk kvs bound slots threads job here =>
    refine fits_place fits grows rfl fits.source ?_
    rw [here, job] at place
    rw [job]
    obtain ⟨published, pairs, before, owed, own⟩ := grows.pushing place
    refine ⟨published, pairs, before, fun e member => ?_, fun batch known => ?_⟩
    · rcases owed e member with later | ⟨batch, running, inside⟩ | covers
      · exact .inl later
      · exact .inr (.inl ⟨batch, (List.mem_cons.mp running).resolve_left nofun, inside⟩)
      · exact .inr (.inr covers)
    · exact own batch (known.imp_right (List.mem_cons_of_mem none))
  | @next chunk kvs threads job here ended =>
    refine fits_place fits grows rfl fits.source ?_
    rw [here, job] at place
    rw [job]
    have pushing := grows.pushing place
    exact pushing_start .min pushing.published pushing.pairs fun _ => pushing.all_pushed ended
  | @finish chunk kvs threads job here ended =>
    refine fits_place fits grows rfl fits.source ?_
    rw [here, job] at place
    rw [job]
    have pushing := grows.pushing place
    refine ⟨pushing.published, fun b e member => ?_⟩
    cases b with
    | max => exact entry_covered (pushing.pairs .max) (pushing.before rfl) member
    | min => exact entry_covered (pushing.pairs .min) (pushing.all_pushed ended) member
  | @push kvs bound slots threads k batch here thread =>
    rw [here] at place
    obtain ⟨chunk, job, pushing⟩ := place.of_pushing
    have own := pushing.own batch (.inr (List.mem_of_getElem? thread))
    refine fits_place fits grows rfl ?_ ?_
    · intro b idx v found
      rcases Better.pushAll_source found with before | pushed
      · exact fits.source b idx v before
      · obtain ⟨idx', v', member, form⟩ := pushing.key_form (own _ pushed)
        obtain ⟨keys, values⟩ := Prod.mk.inj form
        rw [values, str_injective (key_injective keys).2]
        exact ⟨chunk, member⟩
    · rw [job]
      exact (grows.pushing pushing).push thread (Better.covers_pushAll _ _ batch)
  | @read chunk bounds job here found =>
    refine fits_place fits grows rfl fits.source ?_
    have all : ∀ c, sys.Published s c ∧ sys.Pushed s c := by
      intro c
      obtain ⟨j, bounds, done⟩ := permitted chunk job here c
      have fits' := fits.place j
      rw [bounds, done] at fits'
      exact fits'
    rw [job]
    refine ⟨all, ?_, nofun⟩
    obtain rfl := Option.some.inj (found.symm.trans (all chunk).1)
    exact Dict.keys_mapKeys _ str str_injective
  | @mget original res bound values here got =>
    rw [here] at place
    obtain ⟨chunk, job, all, columns, fetched⟩ := place.of_fetching
    refine fits_place fits grows rfl fits.source ?_
    rw [job]
    refine ⟨all, columns, fun b values' found => ?_⟩
    by_cases same : b = bound
    · rw [same, Function.update_self] at found
      cases found
      unfold MinMax.mget at got
      split at got
      next => cases got
      next =>
        rw [← Except.ok.inj got, columns, List.map_map, same]
        apply List.map_congr_left
        intro idx member
        obtain ⟨v, entry⟩ := mem_columns.mp member
        exact redis_best extremes fits.source (fun c => (all c).2) bound ⟨v, chunk, entry⟩
    · rw [Function.update_of_ne same] at found
      exact fetched b values' found
  | @combine chunk original res maxV minV job here highest lowest =>
    rw [here, job] at place
    obtain ⟨_, columns, fetched⟩ := place
    refine fits_place fits grows rfl fits.source ?_
    rw [job, columns]
    apply finalBounds_readBack
    intro b
    cases b with
    | max => exact fetched .max maxV highest
    | min => exact fetched .min minV lowest
  | @scale chunk bounds rows job here done =>
    rw [here, job] at place
    refine fits_place fits grows rfl fits.source ?_
    rw [job]
    have whole := done.symm.trans (scaled_whole place)
    exact (Function.update_self ..).trans (congrArg some (Except.ok.inj whole))

theorem fits_reachable {sys : Scaling C I F} {best : Bound → Int → F} {s : State C I F}
    (extremes : Extremes sys.column best) (reached : Reachable sys.step AtStart sys.InOrder s) : Fits sys best s := by
  apply reached.invariant
  · rintro s ⟨none, starting⟩
    refine ⟨fun b idx v found => ?_, fun i => ?_⟩
    · rw [none] at found
      cases found
    · rw [starting]
      unfold PlaceFits
      trivial
  · rintro s ⟨i, actor⟩ t fits permitted taken
    exact fits_moves extremes fits permitted (step_moves taken)

theorem pushing_goes_on {sys : Scaling C I F} {s : State C I F} {i : I} {chunk : C} (job : sys.job i = .bounds chunk)
    {kvs : Bound → Batch F} {bound : Bound} {slots : List (Batch F)} {threads : PushThreads F}
    (here : s.place i = .pushing kvs bound slots threads) : ∃ actor t, sys.step s (i, actor) = some t := by
  by_cases running : ∃ batch, some batch ∈ threads
  · obtain ⟨batch, member⟩ := running
    obtain ⟨k, thread⟩ := List.mem_iff_getElem?.mp member
    refine ⟨.push k, ?_⟩
    unfold Scaling.step
    dsimp only
    rw [here]
    dsimp only
    rw [thread]
    exact ⟨_, rfl⟩
  · have ended : ∀ thread ∈ threads, thread.isNone := by
      intro thread member
      cases thread with
      | none => rfl
      | some batch => exact (running ⟨batch, member⟩).elim
    refine ⟨.main, ?_⟩
    unfold Scaling.step Scaling.stepBounds
    dsimp only
    rw [job]
    dsimp only
    rw [here]
    cases slots with
    | nil =>
      dsimp only
      rw [if_pos ended]
      cases bound with
      | max => exact ⟨_, rfl⟩
      | min => exact ⟨_, rfl⟩
    | cons slot slots =>
      dsimp only
      split
      next => exact ⟨_, rfl⟩
      next full =>
        cases threads with
        | nil => exact absurd (Nat.zero_lt_succ 3) full
        | cons thread threads =>
          cases thread with
          | none => exact ⟨_, rfl⟩
          | some batch => exact (running ⟨batch, List.mem_cons_self⟩).elim

theorem mget_goes_on {sys : Scaling C I F} {s : State C I F} {i : I} {original : List Text}
    {res : Bound → Option (List (Option F))} (here : s.place i = .fetching original res) (columns : original ≠ [])
    {bound : Bound} (fresh : res bound = none) : ∃ t, sys.step s (i, .mget bound) = some t := by
  have got : MinMax.mget s.redis bound original = .ok (original.map fun idx => s.redis (bound.key idx)) := if_neg columns
  unfold Scaling.step
  dsimp only
  rw [here]
  dsimp only
  rw [fresh, got]
  exact ⟨_, rfl⟩

theorem goes_on {sys : Scaling C I F} {best : Bound → Int → F} {s : State C I F} (fits : Fits sys best s)
    (stored : ∀ chunk, (sys.data chunk).flatten ≠ []) {i : I}
    (permitted : ∀ chunk, sys.job i = .scale chunk → s.place i = .starting → sys.AllPushed s) (busy : s.place i ≠ .done) :
    ∃ actor t, sys.step s (i, actor) = some t := by
  have place := fits.place i
  cases job : sys.job i with
  | bounds chunk =>
    rw [job] at place
    cases here : s.place i with
    | starting =>
      obtain ⟨kvs, got, _⟩ := getKeysValues_data (sys.data chunk)
      refine ⟨.main, ?_⟩
      unfold Scaling.step Scaling.stepBounds
      dsimp only
      rw [job]
      dsimp only
      rw [here]
      dsimp only
      rw [got]
      exact ⟨_, rfl⟩
    | pushing kvs bound slots threads => exact pushing_goes_on job here
    | fetching original res =>
      rw [here] at place
      exact place.elim
    | scaling bounds =>
      rw [here] at place
      exact place.elim
    | done => exact (busy here).elim
  | scale chunk =>
    rw [job] at place
    cases here : s.place i with
    | starting =>
      obtain ⟨j, bounds, done⟩ := permitted chunk job here chunk
      have published := fits.place j
      rw [bounds, done] at published
      refine ⟨.main, ?_⟩
      unfold Scaling.step Scaling.stepScale
      dsimp only
      rw [job]
      dsimp only
      rw [here]
      dsimp only
      rw [published.1]
      exact ⟨_, rfl⟩
    | pushing kvs bound slots threads =>
      rw [here] at place
      exact place.elim
    | fetching original res =>
      rw [here] at place
      have columns : original ≠ [] := by
        obtain ⟨e, member⟩ := List.exists_mem_of_ne_nil _ (stored chunk)
        rw [place.2.1]
        exact List.ne_nil_of_mem (List.mem_map_of_mem (mem_columns.mpr ⟨e.2, member⟩))
      cases highest : res .max with
      | none => exact ⟨_, mget_goes_on here columns highest⟩
      | some maxV =>
        cases lowest : res .min with
        | none => exact ⟨_, mget_goes_on here columns lowest⟩
        | some minV =>
          refine ⟨.main, ?_⟩
          unfold Scaling.step Scaling.stepScale
          dsimp only
          rw [job]
          dsimp only
          rw [here]
          dsimp only
          rw [highest, lowest]
          exact ⟨_, rfl⟩
    | scaling bounds =>
      rw [here] at place
      refine ⟨.main, ?_⟩
      unfold Scaling.step Scaling.stepScale
      dsimp only
      rw [job]
      dsimp only
      rw [here]
      dsimp only
      rw [scaled_whole place]
      exact ⟨_, rfl⟩
    | done => exact (busy here).elim

end Runs

section AtOnce
variable [LinearOrder F] [Field F]

def wholeBounds (dataset : Rows Int F) (bound : Bound) (idx : Int) : F :=
  ((getDataBounds dataset bound).get? idx).getD 0

def scaleRow (dataset : Rows Int F) (newMin newMax : F) (row : List (Int × F)) : List (Text × F) :=
  row.map fun e => (str e.1, scaled newMin newMax (wholeBounds dataset .min e.1) (wholeBounds dataset .max e.1) e.2)

theorem wholeBounds_spec (dataset : Rows Int F) (bound : Bound) {idx : Int} (occurs : (column dataset idx).Nonempty) :
    (getDataBounds dataset bound).get? idx = some (wholeBounds dataset bound idx) := by
  obtain ⟨v, member⟩ := occurs
  obtain ⟨current, here, _⟩ := getDataBounds_covers bound member
  unfold wholeBounds
  rw [here]
  rfl

theorem wholeBounds_extremes (dataset : Rows Int F) : Extremes (column dataset) (wholeBounds dataset) := by
  constructor
  · intro idx occurs
    have here := wholeBounds_spec dataset .max occurs
    exact Better.isGreatest_of_covers here (getDataBounds_source here) fun v member => getDataBounds_covers .max member
  · intro idx occurs
    have here := wholeBounds_spec dataset .min occurs
    exact Better.isLeast_of_covers here (getDataBounds_source here) fun v member => getDataBounds_covers .min member

variable [IsStrictOrderedRing F] [DecidableEq C] [DecidableEq I]

/-- In every run over every split each chunk is scaled as a part of the whole dataset. -/
theorem scaled_at_once (dataset : Rows Int F) (sys : Scaling C I F) (splits : sys.Splits dataset)
    (stored : ∀ chunk, (sys.data chunk).flatten ≠ []) (ordered : sys.minV ≤ sys.maxV) :
    Extremes (column dataset) (wholeBounds dataset) ∧
    (∀ s, Reachable sys.step AtStart sys.InOrder s → ∀ i chunk, sys.job i = .scale chunk →
      (∀ bounds, s.place i = .scaling bounds → sys.ReadBack (wholeBounds dataset) chunk bounds) ∧
      (s.place i = .done → s.output chunk = some ((sys.data chunk).map (scaleRow dataset sys.minV sys.maxV)))) ∧
    (∀ s, Reachable sys.step AtStart sys.InOrder s → ∀ i, (∀ actor, sys.InOrder s (i, actor)) → s.place i ≠ .done →
      ∃ actor t, sys.step s (i, actor) = some t) ∧
    ∀ idx, ∀ v ∈ column dataset idx,
      let lo := wholeBounds dataset .min idx
      let hi := wholeBounds dataset .max idx
      (sys.minV ≤ scaled sys.minV sys.maxV lo hi v ∧ scaled sys.minV sys.maxV lo hi v ≤ sys.maxV) ∧
      (epsilon < |hi - lo| → scaled sys.minV sys.maxV lo hi lo = sys.minV ∧ scaled sys.minV sys.maxV lo hi hi = sys.maxV) ∧
      (¬ epsilon < |hi - lo| → scaled sys.minV sys.maxV lo hi v = (sys.minV + sys.maxV) / 2) := by
  have extremes := wholeBounds_extremes dataset
  have same : Extremes sys.column (wholeBounds dataset) := by
    rw [column_of_splits splits]
    exact extremes
  refine ⟨extremes, ?_, ?_, ?_⟩
  · intro s reached i chunk job
    have place := (fits_reachable same reached).place i
    rw [job] at place
    constructor
    · intro bounds here
      rw [here] at place
      exact place
    · intro here
      rw [here] at place
      exact place
  · intro s reached i permitted busy
    exact goes_on (fits_reachable same reached) stored (permitted .main) busy
  · intro idx v member
    have occurs : (column dataset idx).Nonempty := ⟨v, member⟩
    have above := (extremes.least idx occurs).2 member
    have below := (extremes.greatest idx occurs).2 member
    refine ⟨scaled_mem ordered above below, fun wide => ⟨scaled_min wide _ _, scaled_max wide _ _⟩, fun flat => ?_⟩
    exact scaled_flat flat _ _ v

end AtOnce

def twoChunks : Scaling (Fin 2) (Fin 4) ℚ where
  data
    | 0 => [[(0, 1), (1, 5)]]
    | 1 => [[(0, 3)]]
  job
    | 0 => .bounds 0
    | 1 => .bounds 1
    | 2 => .scale 0
    | 3 => .scale 1
  keyslot _ := 0
  minV := 0
  maxV := 1

def emptyStart : State (Fin 2) (Fin 4) ℚ where
  redis _ := none
  finalBounds _ := none
  output _ := none
  place _ := .starting

local instance invocations_neZero : NeZero 4 := ⟨by decide⟩

def pushThenScale : List (Fin 4 × Actor) :=
  ([Actor.main, .main, .push 0, .main, .main, .push 0, .main].flatMap fun actor => [(0, actor), (1, actor)]) ++
    [Actor.main, .mget .max, .mget .min, .main, .main].map fun actor => (2, actor)

theorem two_chunks_scaled : ∃ s : State (Fin 2) (Fin 4) ℚ,
    s.output 0 = some [[(str 0, 0), (str 1, 1 / 2)]] ∧
      s.output 0 = some ((twoChunks.data 0).map (scaleRow [[(0, 1), (1, 5)], [(0, 3)]] 0 1)) := by
  have ends : (followIf twoChunks.step twoChunks.InOrder emptyStart pushThenScale).map
      (fun s => decide (s.place 2 = .done ∧ s.output 0 = some [[(str 0, 0), (str 1, 1 / 2)]])) = some true := by decide +kernel
  obtain ⟨s, taken, last⟩ := Option.map_eq_some_iff.mp ends
  obtain ⟨done, rows⟩ := of_decide_eq_true last
  have splits : twoChunks.Splits [[(0, 1), (1, 5)], [(0, 3)]] := by
    intro row
    simp [Fin.exists_fin_two, twoChunks]
  have stored : ∀ chunk, (twoChunks.data chunk).flatten ≠ [] := by decide
  have settled := scaled_at_once _ twoChunks splits stored (by decide)
  have scaled := settled.2.1 s (.followIf (.start ⟨fun _ _ => rfl, fun _ => rfl⟩) taken) 2 0 rfl
  exact ⟨s, rows, scaled.2 done⟩

end MinMax

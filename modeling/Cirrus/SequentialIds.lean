import Cirrus.Lib.Transition
import Cirrus.S3SparseIterator

/-!
The ids that the prefetch thread asks for when the access is not random. The
constructor starts the thread and sets `current` after that, so the steps here
are the accesses of the two to `current` and to the semaphore. What the thread
does between two ids touches neither.
-/
namespace SequentialIds
open Transition S3SparseIterator

def idAt (leftId rightId : UInt64) : Nat → UInt64
  | 0 => leftId
  | k + 1 => if idAt leftId rightId k + 1 = rightId then leftId else idAt leftId rightId k + 1

theorem idAt_toNat {leftId rightId : UInt64} (ordered : leftId < rightId) (k : Nat) :
    (idAt leftId rightId k).toNat = leftId.toNat + k % (rightId.toNat - leftId.toNat) := by
  have less : leftId.toNat < rightId.toNat := ordered
  have bound := rightId.toNat_lt
  induction k with
  | zero => simp [idAt]
  | succ k ih =>
    have below := Nat.mod_lt k (show rightId.toNat - leftId.toNat > 0 by omega)
    have next : (idAt leftId rightId k + 1).toNat = leftId.toNat + k % (rightId.toNat - leftId.toNat) + 1 := by
      rw [UInt64.toNat_add, ih]
      exact Nat.mod_eq_of_lt (by show _ + 1 < 2 ^ 64; omega)
    unfold idAt
    rw [← Nat.mod_add_mod]
    by_cases last : idAt leftId rightId k + 1 = rightId
    · have full : k % (rightId.toNat - leftId.toNat) + 1 = rightId.toNat - leftId.toNat := by
        rw [last] at next
        omega
      rw [if_pos last, full, Nat.mod_self, Nat.add_zero]
    · have short : k % (rightId.toNat - leftId.toNat) + 1 < rightId.toNat - leftId.toNat := by
        have different : (idAt leftId rightId k + 1).toNat ≠ rightId.toNat := fun same => last (UInt64.toNat_inj.mp same)
        omega
      rw [if_neg last, next, Nat.mod_eq_of_lt short, Nat.add_assoc]

inductive Constructor
  | signalling
  | starting
  | assigning
  | returned
  deriving DecidableEq

/-- Where the thread is, with what it has read of `current`. -/
inductive Thread
  | absent
  | waiting
  | loading
  | storing (ret : UInt64)
  | comparing (ret : UInt64)
  | resetting (ret : UInt64)
  | requesting (ret : UInt64)
  deriving DecidableEq

/-- `requested` is a history. -/
structure State where
  constructor : Constructor := .signalling
  thread : Thread := .absent
  prefSem : Nat := 0
  current : UInt64 := 0
  requested : List UInt64 := []
  deriving DecidableEq

inductive Label
  | constructor
  | thread
  | getNext

section Steps
variable (leftId rightId : UInt64)

def construct (s : State) : Option State :=
  match s.constructor with
  | .signalling => some { s with prefSem := s.prefSem + readAhead, constructor := .starting }
  | .starting => some { s with thread := .waiting, constructor := .assigning }
  | .assigning => some { s with current := leftId, constructor := .returned }
  | .returned => none

/-- `getObjId`, whose `current++` is a load and a store. -/
def runThread (s : State) : Option State :=
  match s.thread with
  | .absent => none
  | .waiting => if 0 < s.prefSem then some { s with prefSem := s.prefSem - 1, thread := .loading } else none
  | .loading => some { s with thread := .storing s.current }
  | .storing ret => some { s with current := ret + 1, thread := .comparing ret }
  | .comparing ret => some { s with thread := if s.current = rightId then .resetting ret else .requesting ret }
  | .resetting ret => some { s with current := leftId, thread := .requesting ret }
  | .requesting ret => some { s with requested := s.requested ++ [ret], thread := .waiting }

def step (s : State) : Label → Option State
  | .constructor => construct leftId s
  | .thread => runThread leftId rightId s
  | .getNext => if s.constructor = .returned then some { s with prefSem := semPost s.prefSem } else none

def AtStart (s : State) : Prop := s = {}

/-- The ids asked for are those of the range, in order, round after round. -/
def InOrder (s : State) : Prop :=
  ∀ (k : Nat) id, s.requested[k]? = some id → id.toNat = leftId.toNat + k % (rightId.toNat - leftId.toNat)

/-- What a step must not do: the thread looks at `current` before the constructor has set it, unless the range
starts at the value it has already; and in that case the constructor sets it when the thread has counted on,
unless the range is that one id. -/
def Orderly (s : State) : Label → Prop
  | .thread => s.thread = .loading → s.constructor = .returned ∨ leftId = 0
  | .constructor => s.constructor = .assigning →
      s.requested = [] ∧ (s.thread = .waiting ∨ s.thread = .loading ∨ ∃ ret, s.thread = .storing ret) ∨ leftId + 1 = rightId
  | .getNext => True

end Steps

section Invariant
variable {leftId rightId : UInt64} {s t : State}

def CurrentAt (leftId rightId : UInt64) (s : State) : Prop :=
  let id := idAt leftId rightId s.requested.length
  let next := idAt leftId rightId (s.requested.length + 1)
  match s.thread with
  | .absent | .waiting | .loading => s.current = id
  | .storing ret => ret = id ∧ s.current = id
  | .comparing ret => ret = id ∧ (s.current = id + 1 ∨ s.current = next ∧ leftId + 1 = rightId)
  | .resetting ret => ret = id ∧ next = leftId
  | .requesting ret => ret = id ∧ s.current = next

structure Inv (leftId rightId : UInt64) (s : State) : Prop where
  ids : ∀ (k : Nat) id, s.requested[k]? = some id → id = idAt leftId rightId k
  current : s.constructor = .returned ∨ leftId = 0 → CurrentAt leftId rightId s
  untouched : s.constructor ≠ .returned → leftId ≠ 0 →
    s.requested = [] ∧ (s.thread = .absent ∨ s.thread = .waiting ∨ s.thread = .loading)
  created : s.constructor = .signalling ∨ s.constructor = .starting → s.thread = .absent ∧ s.requested = []

theorem idAt_single (one : leftId + 1 = rightId) (k : Nat) : idAt leftId rightId k = leftId := by
  induction k with
  | zero => rfl
  | succ k ih => rw [idAt, ih, if_pos one]

theorem current_single (one : leftId + 1 = rightId) (s : State)
    (before : CurrentAt leftId rightId s ∨ s.thread = .absent ∨ s.thread = .waiting ∨ s.thread = .loading) :
    CurrentAt leftId rightId { s with current := leftId, constructor := .returned } := by
  unfold CurrentAt at before ⊢
  simp only [idAt_single one] at before ⊢
  cases place : s.thread with
  | absent | waiting | loading => trivial
  | storing ret | requesting ret =>
    rw [place] at before
    rcases before with read | early
    · exact ⟨read.1, trivial⟩
    · simp at early
  | comparing ret =>
    rw [place] at before
    rcases before with read | early
    · exact ⟨read.1, .inr ⟨trivial, one⟩⟩
    · simp at early
  | resetting ret =>
    rw [place] at before
    rcases before with read | early
    · exact read
    · simp at early

theorem compared {ret : UInt64} (same : ret = idAt leftId rightId s.requested.length)
    (counted : s.current = idAt leftId rightId s.requested.length + 1 ∨
      s.current = idAt leftId rightId (s.requested.length + 1) ∧ leftId + 1 = rightId) :
    CurrentAt leftId rightId { s with thread := if s.current = rightId then .resetting ret else .requesting ret } := by
  unfold CurrentAt
  rcases counted with next | ⟨next, one⟩
  · by_cases last : s.current = rightId
    · simp only [if_pos last]
      refine ⟨same, ?_⟩
      rw [idAt, if_pos (next.symm.trans last)]
    · simp only [if_neg last]
      refine ⟨same, ?_⟩
      rw [idAt, if_neg (fun full => last (next.trans full)), next]
  · by_cases last : s.current = rightId
    · simp only [if_pos last]
      exact ⟨same, idAt_single one _⟩
    · simp only [if_neg last]
      exact ⟨same, next⟩

theorem inv_construct (inv : Inv leftId rightId s) (orderly : Orderly leftId rightId s .constructor)
    (taken : construct leftId s = some t) : Inv leftId rightId t := by
  obtain ⟨ids, current, untouched, created⟩ := inv
  unfold construct at taken
  split at taken
  next here =>
    obtain rfl := Option.some.inj taken
    obtain ⟨absent, none⟩ := created (.inl here)
    refine ⟨ids, ?_, fun _ _ => ⟨none, .inl absent⟩, fun _ => ⟨absent, none⟩⟩
    intro zero
    exact current (.inr (zero.resolve_left nofun))
  next here =>
    obtain rfl := Option.some.inj taken
    obtain ⟨absent, none⟩ := created (.inr here)
    refine ⟨ids, ?_, fun _ _ => ⟨none, .inr (.inl rfl)⟩, nofun⟩
    intro zero
    have := current (.inr (zero.resolve_left nofun))
    rw [CurrentAt, absent] at this
    exact this
  next here =>
    obtain rfl := Option.some.inj taken
    refine ⟨ids, ?_, fun unset => absurd rfl unset, nofun⟩
    intro _
    rcases orderly here with ⟨none, place⟩ | one
    · rcases place with waiting | loading | ⟨ret, storing⟩
      · rw [CurrentAt, waiting, none]
        rfl
      · rw [CurrentAt, loading, none]
        rfl
      · have zero : leftId = 0 := by
          by_contra some_left
          have := (untouched (by rw [here]; nofun) some_left).2
          rw [storing] at this
          rcases this with same | same | same <;> cases same
        have read := current (.inr zero)
        rw [CurrentAt, storing, none] at read ⊢
        exact ⟨read.1, rfl⟩
    · exact current_single one s (by
        by_cases zero : leftId = 0
        · exact .inl (current (.inr zero))
        · exact .inr (untouched (by rw [here]; nofun) zero).2)
  next => cases taken

theorem inv_thread (inv : Inv leftId rightId s) (orderly : Orderly leftId rightId s .thread)
    (taken : runThread leftId rightId s = some t) : Inv leftId rightId t := by
  obtain ⟨ids, current, untouched, created⟩ := inv
  -- the thread is there, and past its first load only where `current` may be looked at
  have later (place : s.thread ≠ .absent) : ¬ (s.constructor = .signalling ∨ s.constructor = .starting) :=
    fun early => place (created early).1
  have set (place : s.thread ≠ .absent ∧ s.thread ≠ .waiting ∧ s.thread ≠ .loading) :
      s.constructor = .returned ∨ leftId = 0 := by
    by_contra unset
    rw [not_or] at unset
    rcases (untouched unset.1 unset.2).2 with same | same | same
    · exact place.1 same
    · exact place.2.1 same
    · exact place.2.2 same
  unfold runThread at taken
  split at taken
  next => cases taken
  next here =>
    split at taken
    next =>
      obtain rfl := Option.some.inj taken
      refine ⟨ids, ?_, fun unset some_left => ⟨(untouched unset some_left).1, .inr (.inr rfl)⟩,
        fun early => absurd early (later (by rw [here]; nofun))⟩
      intro ready
      have := current ready
      rw [CurrentAt, here] at this
      exact this
    next => cases taken
  next here =>
    obtain rfl := Option.some.inj taken
    have ready := orderly here
    have read := current ready
    rw [CurrentAt, here] at read
    exact ⟨ids, fun _ => ⟨read, read⟩, fun unset some_left => absurd ready (not_or.mpr ⟨unset, some_left⟩),
      fun early => absurd early (later (by rw [here]; nofun))⟩
  next ret here =>
    obtain rfl := Option.some.inj taken
    have ready := set (by rw [here]; exact ⟨nofun, nofun, nofun⟩)
    have read := current ready
    rw [CurrentAt, here] at read
    obtain ⟨same, _⟩ := read
    exact ⟨ids, fun _ => ⟨same, .inl (by rw [same])⟩, fun unset some_left => absurd ready (not_or.mpr ⟨unset, some_left⟩),
      fun early => absurd early (later (by rw [here]; nofun))⟩
  next ret here =>
    obtain rfl := Option.some.inj taken
    have ready := set (by rw [here]; exact ⟨nofun, nofun, nofun⟩)
    have read := current ready
    rw [CurrentAt, here] at read
    obtain ⟨same, counted⟩ := read
    refine ⟨ids, fun _ => compared same counted, fun unset some_left => absurd ready (not_or.mpr ⟨unset, some_left⟩),
      fun early => absurd early (later (by rw [here]; nofun))⟩
  next ret here =>
    obtain rfl := Option.some.inj taken
    have ready := set (by rw [here]; exact ⟨nofun, nofun, nofun⟩)
    have read := current ready
    rw [CurrentAt, here] at read
    obtain ⟨same, last⟩ := read
    exact ⟨ids, fun _ => ⟨same, last.symm⟩, fun unset some_left => absurd ready (not_or.mpr ⟨unset, some_left⟩),
      fun early => absurd early (later (by rw [here]; nofun))⟩
  next ret here =>
    obtain rfl := Option.some.inj taken
    have ready := set (by rw [here]; exact ⟨nofun, nofun, nofun⟩)
    have read := current ready
    rw [CurrentAt, here] at read
    obtain ⟨same, next⟩ := read
    refine ⟨fun k id there => history_concat ids same k id there, ?_,
      fun unset some_left => absurd ready (not_or.mpr ⟨unset, some_left⟩),
      fun early => absurd early (later (by rw [here]; nofun))⟩
    intro _
    show s.current = idAt leftId rightId (s.requested ++ [ret]).length
    rw [next, List.length_append, List.length_singleton]

end Invariant

theorem inv_step {leftId rightId : UInt64} {s t : State} {l : Label} (inv : Inv leftId rightId s)
    (orderly : Orderly leftId rightId s l) (taken : step leftId rightId s l = some t) : Inv leftId rightId t := by
  cases l with
  | constructor => exact inv_construct inv orderly taken
  | thread => exact inv_thread inv orderly taken
  | getNext =>
    unfold step at taken
    simp only at taken
    split at taken
    next =>
      obtain rfl := Option.some.inj taken
      exact ⟨inv.ids, inv.current, inv.untouched, inv.created⟩
    next => cases taken

theorem inv_start {leftId rightId : UInt64} {s : State} (start : AtStart s) : Inv leftId rightId s := by
  obtain rfl := start
  refine ⟨nofun, ?_, fun _ _ => ⟨rfl, .inl rfl⟩, fun _ => ⟨rfl, rfl⟩⟩
  intro zero
  exact (zero.resolve_left nofun).symm

def startSchedule : List Label := [.constructor, .constructor] ++ List.replicate 5 .thread

theorem startSchedule_runs (leftId : UInt64) {rightId : UInt64} (different : rightId ≠ 1) :
    follow (step leftId rightId) {} startSchedule =
      some { constructor := .assigning, thread := .waiting, current := 1, requested := [0] } := by
  have short : (1 : UInt64) ≠ rightId := different.symm
  simp [startSchedule, follow, List.replicate, step, construct, runThread, readAhead, short]

theorem zero_first (leftId : UInt64) {rightId : UInt64} (different : rightId ≠ 1) :
    ∃ s, follow (step leftId rightId) {} startSchedule = some s ∧ s.requested = [0] :=
  ⟨_, startSchedule_runs leftId different, rfl⟩

theorem zero_repeated {rightId : UInt64} (different : rightId ≠ 1) :
    ∃ s, follow (step 0 rightId) {} (startSchedule ++ .constructor :: .getNext :: List.replicate 5 .thread) = some s ∧
      s.requested = [0, 0] := by
  have short : (1 : UInt64) ≠ rightId := different.symm
  rw [follow_append, startSchedule_runs 0 different, Option.bind_some]
  simp [follow, List.replicate, step, construct, runThread, semPost, short]

theorem inOrder_of_orderly {leftId rightId : UInt64} (ordered : leftId < rightId) {s : State}
    (reached : Reachable (step leftId rightId) AtStart (Orderly leftId rightId) s) : InOrder leftId rightId s := by
  have inv : Inv leftId rightId s :=
    reached.invariant (fun _ start => inv_start start) fun _ _ _ inv orderly taken => inv_step inv orderly taken
  intro k id there
  rw [inv.ids k id there, idAt_toNat ordered]

/-- In a run that is orderly the ids come in order. Every run is, for the range of the one id 0 and for no other. -/
theorem ids_in_order {leftId rightId : UInt64} (ordered : leftId < rightId) :
    (∀ s, Reachable (step leftId rightId) AtStart (Orderly leftId rightId) s → InOrder leftId rightId s) ∧
    ((∀ s, Reachable (step leftId rightId) AtStart anyStep s → InOrder leftId rightId s) ↔ leftId = 0 ∧ rightId = 1) := by
  refine ⟨fun _ reached => inOrder_of_orderly ordered reached, ?_⟩
  constructor
  · intro always
    have less : leftId.toNat < rightId.toNat := ordered
    by_contra other
    by_cases zero : leftId = 0
    · have different : rightId ≠ 1 := fun one => other ⟨zero, one⟩
      subst zero
      obtain ⟨s, ran, twice⟩ := zero_repeated different
      have order := always s (.follow (.start rfl) ran)
      have second := order 1 0 (by rw [twice]; rfl)
      have rest : 1 % (rightId.toNat - (0 : UInt64).toNat) = 1 := by
        apply Nat.mod_eq_of_lt
        have : rightId.toNat ≠ 1 := fun one => different (UInt64.toNat_inj.mp one)
        simp at less ⊢
        omega
      rw [rest] at second
      simp at second
    · have first : leftId.toNat ≠ 0 := fun none => zero (UInt64.toNat_inj.mp none)
      have different : rightId ≠ 1 := by
        intro one
        rw [one] at less
        simp at less
        omega
      obtain ⟨s, ran, early⟩ := zero_first leftId different
      have order := always s (.follow (.start rfl) ran)
      have wrong := order 0 0 (by rw [early]; rfl)
      simp at wrong
      omega
  · intro ⟨zero, one⟩ s reached
    have any : ∀ s l, Orderly leftId rightId s l := by
      intro s l
      cases l with
      | constructor => exact fun _ => .inr (by rw [zero, one]; rfl)
      | thread => exact fun _ => .inr zero
      | getNext => trivial
    exact inOrder_of_orderly ordered (reached.weaken fun s l _ => any s l)

theorem ids_in_order_three : (∀ s, Reachable (step 3 5) AtStart (Orderly 3 5) s → InOrder 3 5 s) ∧
    ((∀ s, Reachable (step 3 5) AtStart anyStep s → InOrder 3 5 s) ↔ (3 : UInt64) = 0 ∧ (5 : UInt64) = 1) :=
  ids_in_order (by decide)

/-- The first object of two is asked for twice. -/
theorem first_id_twice : ¬ ∀ s, Reachable (step 0 2) AtStart anyStep s → InOrder 0 2 s := by
  intro always
  obtain ⟨s, ran, twice⟩ := zero_repeated (by decide : (2 : UInt64) ≠ 1)
  have order := always s (.follow (.start rfl) ran)
  exact absurd (order 1 0 (by rw [twice]; rfl)) (by decide)

end SequentialIds

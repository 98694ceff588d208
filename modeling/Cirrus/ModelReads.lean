import Cirrus.AsyncUpdates

/-!
Requests that read the model while the worker threads of the server update it.
A request for some weights reads them one after the other without `model_lock`;
a request for the whole model copies it under the lock.
-/
namespace ModelReads
open Gradients SparseLR MF Transition AsyncUpdates
variable {I J G M C F : Type}

/-- Where the handler of a request is: it has read the cells in `got`. -/
inductive Reader (C F : Type)
  | locking (cells : List C)
  | reading (locked : Bool) (rest : List C) (got : List (C × F))
  | replied (locked : Bool) (got : List (C × F))

structure State (I J G M C F : Type) where
  updates : AsyncUpdates.State I G M C F
  reader : J → Reader C F := fun _ => .replied false []

inductive Label (I J G C : Type)
  | update (l : AsyncUpdates.Label I G)
  | request (j : J) (locked : Bool) (cells : List C)
  | reader (j : J)

section Steps
variable [DecidableEq I] [DecidableEq J] [Add F]

def State.withReader (s : State I J G M C F) (j : J) (r : Reader C F) : State I J G M C F :=
  { s with reader := Function.update s.reader j r }

def readerStep (u : Updates G M C F) (s : State I J G M C F) (j : J) : Option (State I J G M C F) :=
  match s.reader j with
  | .locking cells =>
    if s.updates.modelLock then none
    else some ({ s with updates := { s.updates with modelLock := true } }.withReader j (.reading true cells []))
  | .reading locked (c :: rest) got =>
    (u.cells.load s.updates.model c).map fun value => s.withReader j (.reading locked rest (got ++ [(c, value)]))
  | .reading locked [] got =>
    some ({ s with updates := { s.updates with modelLock := s.updates.modelLock && !locked } }.withReader j
      (.replied locked got))
  | .replied _ _ => none

def step (u : Updates G M C F) (s : State I J G M C F) : Label I J G C → Option (State I J G M C F)
  | .update l => (u.step s.updates l).map fun updates => { s with updates := updates }
  | .request j locked cells =>
    match s.reader j with
    | .replied _ _ => some (s.withReader j (if locked then .locking cells else .reading false cells []))
    | _ => none
  | .reader j => readerStep u s j

end Steps

/-- What has happened so far, which no step reads. -/
structure History (J G : Type) where
  /-- The gradients in the order in which their threads got the lock. -/
  begun : List G := []
  /-- How many of their additions have been stored. -/
  stored : Nat := 0
  /-- How many gradients had begun, and how many additions had been stored, when a handler
  began: when it got its request, or the lock if it takes the lock. -/
  begunAt : J → Nat := fun _ => 0
  since : J → Nat := fun _ => 0
  /-- How many had been stored at each of its reads. -/
  seenAt : J → List Nat := fun _ => []

namespace History
variable [DecidableEq J]

def begin (h : History J G) (j : J) : History J G :=
  { h with
    begunAt := Function.update h.begunAt j h.begun.length
    since := Function.update h.since j h.stored
    seenAt := Function.update h.seenAt j [] }

def next (s : State I J G M C F) (h : History J G) : Label I J G C → History J G
  | .update (.request _) => h
  | .update (.thread i) =>
    match s.updates.place i with
    | .locking g => { h with begun := h.begun ++ [g] }
    | .storing _ _ _ => { h with stored := h.stored + 1 }
    | _ => h
  | .request j _ _ => h.begin j
  | .reader j =>
    match s.reader j with
    | .locking _ => h.begin j
    | .reading _ (_ :: _) _ => { h with seenAt := Function.update h.seenAt j (h.seenAt j ++ [h.stored]) }
    | _ => h

omit [DecidableEq J] in
/-- Everything that the gradients add, in the order of the lock. -/
def log (u : Updates G M C F) (h : History J G) : List (C × F) := h.begun.flatMap u.additions

end History

/-- The values that a handler has read are those of the model after some prefixes of the log, each at least as
long as the one before; at the least it sees all the gradients before the last one that had begun when it did.
Under the lock all are those of the model after whole gradients, and the same ones. -/
structure Seen [Add F] (u : Updates G M C F) (m : M) (h : History J G) (j : J) (locked : Bool) (got : List (C × F)) :
    Prop where
  values : List.Forall₂ (fun e n => u.cells.load (u.cells.addAll m ((h.log u).take n)) e.1 = some e.2) got (h.seenAt j)
  ordered : (h.since j :: h.seenAt j).Pairwise (· ≤ ·)
  stored : ∀ n ∈ h.since j :: h.seenAt j, n ≤ h.stored
  begun : h.begunAt j ≤ h.begun.length
  whole : ((h.begun.take (h.begunAt j - 1)).flatMap u.additions).length ≤ h.since j
  snapshot : locked = true → h.since j = ((h.begun.take (h.begunAt j)).flatMap u.additions).length ∧
    ∀ n ∈ h.seenAt j, n = h.since j

def Reader.HasLock : Reader C F → Prop
  | reading locked _ _ => locked = true
  | _ => False

def Reader.Tracked [Add F] (u : Updates G M C F) (m : M) (h : History J G) (j : J) : Reader C F → Prop
  | locking _ => True
  | reading locked _ got => Seen u m h j locked got ∧ (locked = true → h.since j = h.stored)
  | replied locked got => Seen u m h j locked got

structure Logged [Add F] (u : Updates G M C F) (m : M) (s : State I J G M C F) (h : History J G) : Prop where
  guarded : Guarded u s.updates
  model : s.updates.model = u.cells.addAll m ((h.log u).take h.stored)
  inside : h.stored ≤ (h.log u).length
  whole : ((h.begun.take (h.begun.length - 1)).flatMap u.additions).length ≤ h.stored
  holder : ∀ i, (s.updates.place i).Holds → (s.updates.place i).left u = (h.log u).drop h.stored
  free : (∀ i, ¬ (s.updates.place i).Holds) → h.stored = (h.log u).length
  alone : ∀ j, (s.reader j).HasLock → s.updates.modelLock = true ∧ (∀ i, ¬ (s.updates.place i).Holds) ∧
    ∀ j', (s.reader j').HasLock → j' = j
  readers : ∀ j, (s.reader j).Tracked u m h j

section Growing
variable [Add F] {u : Updates G M C F} {m : M} {h : History J G} {j : J} {locked : Bool} {got : List (C × F)}

omit [Add F] in
theorem log_begins (u : Updates G M C F) (h : History J G) (g : G) :
    ({ h with begun := h.begun ++ [g] } : History J G).log u = h.log u ++ u.additions g := by
  simp [History.log]

theorem Seen.begins (seen : Seen u m h j locked got) (inside : h.stored ≤ (h.log u).length) (g : G) :
    Seen u m { h with begun := h.begun ++ [g] } j locked got := by
  have first : ∀ k ≤ h.begun.length, (h.begun ++ [g]).take k = h.begun.take k :=
    fun k bound => List.take_append_of_le_length bound
  constructor
  · obtain ⟨length, each⟩ := List.forall₂_iff_get.mp seen.values
    refine List.forall₂_iff_get.mpr ⟨length, fun k below below' => ?_⟩
    have bound := seen.stored _ (List.mem_cons_of_mem _ (List.get_mem _ ⟨k, below'⟩))
    rw [log_begins, List.take_append_of_le_length (Nat.le_trans bound inside)]
    exact each k below below'
  · exact seen.ordered
  · exact seen.stored
  · dsimp only
    rw [List.length_append]
    exact Nat.le_trans seen.begun (Nat.le_add_right _ _)
  · dsimp only
    rw [first _ (Nat.le_trans (Nat.sub_le _ _) seen.begun)]
    exact seen.whole
  · dsimp only
    rw [first _ seen.begun]
    exact seen.snapshot

theorem Seen.stores (seen : Seen u m h j locked got) : Seen u m { h with stored := h.stored + 1 } j locked got :=
  { seen with stored := fun n member => Nat.le_succ_of_le (seen.stored n member) }

theorem Seen.congr {h' : History J G} (seen : Seen u m h j locked got) (begun : h'.begun = h.begun)
    (stored : h'.stored = h.stored) (begunAt : h'.begunAt j = h.begunAt j) (since : h'.since j = h.since j)
    (seenAt : h'.seenAt j = h.seenAt j) : Seen u m h' j locked got := by
  obtain ⟨values, ordered, bound, some_begun, whole, snapshot⟩ := seen
  have log : h'.log u = h.log u := congrArg (List.flatMap u.additions) begun
  constructor
  · rwa [log, seenAt]
  · rwa [since, seenAt]
  · rwa [since, seenAt, stored]
  · rwa [begunAt, begun]
  · rwa [begunAt, begun, since]
  · rwa [begunAt, begun, since, seenAt]

theorem Seen.reads [DecidableEq J] (seen : Seen u m h j locked got) {model : M}
    (now : model = u.cells.addAll m ((h.log u).take h.stored)) (quiet : locked = true → h.since j = h.stored) {c : C} {value : F}
    (loaded : u.cells.load model c = some value) :
    Seen u m { h with seenAt := Function.update h.seenAt j (h.seenAt j ++ [h.stored]) } j locked (got ++ [(c, value)]) := by
  constructor
  · dsimp only
    rw [Function.update_self]
    refine List.rel_append seen.values (.cons ?_ .nil)
    change u.cells.load (u.cells.addAll m ((h.log u).take h.stored)) c = some value
    rw [← now]
    exact loaded
  · dsimp only
    rw [Function.update_self, ← List.cons_append, List.pairwise_append]
    refine ⟨seen.ordered, List.pairwise_singleton _ _, ?_⟩
    intro n member k last
    rw [List.mem_singleton.mp last]
    exact seen.stored n member
  · dsimp only
    rw [Function.update_self, ← List.cons_append]
    intro n member
    rcases List.mem_append.mp member with before | last
    · exact seen.stored n before
    · exact Nat.le_of_eq (List.mem_singleton.mp last)
  · exact seen.begun
  · exact seen.whole
  · intro lock
    obtain ⟨whole, same⟩ := seen.snapshot lock
    refine ⟨whole, ?_⟩
    dsimp only
    rw [Function.update_self]
    intro n member
    rcases List.mem_append.mp member with before | last
    · exact same n before
    · rw [List.mem_singleton.mp last]
      exact (quiet lock).symm

theorem seen_begin [DecidableEq J] (u : Updates G M C F) (m : M) {h : History J G} (j : J) {locked : Bool}
    (whole : ((h.begun.take (h.begun.length - 1)).flatMap u.additions).length ≤ h.stored)
    (quiet : locked = true → h.stored = (h.log u).length) : Seen u m (h.begin j) j locked [] := by
  unfold History.begin
  constructor <;> dsimp only <;> simp only [Function.update_self]
  · exact .nil
  · exact List.pairwise_singleton _ _
  · exact fun n member => Nat.le_of_eq (List.mem_singleton.mp member)
  · exact Nat.le_refl _
  · exact whole
  · intro lock
    rw [List.take_length]
    exact ⟨quiet lock, fun n none => absurd none List.not_mem_nil⟩

theorem tracked_begins {r : Reader C F} (tracked : r.Tracked u m h j) (inside : h.stored ≤ (h.log u).length) (g : G) :
    r.Tracked u m { h with begun := h.begun ++ [g] } j := by
  cases r with
  | locking cells => trivial
  | reading locked rest got => exact ⟨tracked.1.begins inside g, tracked.2⟩
  | replied locked got => exact Seen.begins tracked inside g

theorem tracked_stores {r : Reader C F} (tracked : r.Tracked u m h j) (unlocked : ¬ r.HasLock) :
    r.Tracked u m { h with stored := h.stored + 1 } j := by
  cases r with
  | locking cells => trivial
  | reading locked rest got => exact ⟨tracked.1.stores, fun lock => (unlocked lock).elim⟩
  | replied locked got => exact Seen.stores tracked

theorem tracked_congr {r : Reader C F} {h' : History J G} (tracked : r.Tracked u m h j) (begun : h'.begun = h.begun)
    (stored : h'.stored = h.stored) (begunAt : h'.begunAt j = h.begunAt j) (since : h'.since j = h.since j)
    (seenAt : h'.seenAt j = h.seenAt j) : r.Tracked u m h' j := by
  cases r with
  | locking cells => trivial
  | reading locked rest got =>
    refine ⟨tracked.1.congr begun stored begunAt since seenAt, ?_⟩
    rw [since, stored]
    exact tracked.2
  | replied locked got => exact Seen.congr tracked begun stored begunAt since seenAt

end Growing
section Steps
variable [DecidableEq I] [DecidableEq J] [Add F] {u : Updates G M C F} {m : M} {s : State I J G M C F} {h : History J G}

omit [DecidableEq I] [DecidableEq J] in
theorem Logged.unlocked (logged : Logged u m s h) {i : I} (holds : (s.updates.place i).Holds) (j : J) :
    ¬ (s.reader j).HasLock := fun lock => (logged.alone j lock).2.1 i holds

omit [DecidableEq J] in
theorem Logged.quiet (logged : Logged u m s h) {t : AsyncUpdates.State I G M C F} {i : I} {p : Place G C F}
    (guarded : Guarded u t) (place : t.place = Function.update s.updates.place i p) (model : t.model = s.updates.model)
    (lock : t.modelLock = s.updates.modelLock) (holds : p.Holds ↔ (s.updates.place i).Holds)
    (left : p.Holds → p.left u = (s.updates.place i).left u) : Logged u m { s with updates := t } h := by
  have same : ∀ k, (t.place k).Holds ↔ (s.updates.place k).Holds := by
    intro k
    rw [place]
    by_cases here : k = i
    · subst here
      rw [Function.update_self]
      exact holds
    · rw [Function.update_of_ne here]
  refine ⟨guarded, model.trans logged.model, logged.inside, logged.whole, ?_, ?_, ?_, logged.readers⟩
  · intro k held
    have before := logged.holder k ((same k).mp held)
    dsimp only at held ⊢
    by_cases here : k = i
    · subst here
      rw [place, Function.update_self] at held ⊢
      rw [left held, before]
    · rw [place, Function.update_of_ne here, before]
  · intro none
    exact logged.free fun k held => none k ((same k).mpr held)
  · intro j held
    obtain ⟨locked, none, one⟩ := logged.alone j held
    exact ⟨lock.trans locked, fun k held => none k ((same k).mp held), one⟩

theorem logged_thread (logged : Logged u m s h) {i : I} {t : AsyncUpdates.State I G M C F}
    (taken : u.threadStep s.updates i = some t) :
    Logged u m { s with updates := t } (History.next s h (.update (.thread i) : Label I J G C)) := by
  have move := threadStep_moves taken
  have guarded := guarded_moves logged.guarded move
  cases move with
  | take here queue =>
    rw [History.next, here]
    exact logged.quiet guarded rfl rfl rfl (by rw [here]; exact Iff.rfl) False.elim
  | count here =>
    rw [History.next, here]
    exact logged.quiet guarded rfl rfl rfl (by rw [here]; exact Iff.rfl) False.elim
  | load here found =>
    rw [History.next, here]
    exact logged.quiet guarded rfl rfl rfl (by rw [here]; exact Iff.rfl) fun _ => by rw [here]; rfl
  | @lock g here free =>
    rw [History.next, here]
    have none : ∀ k, ¬ (s.updates.place k).Holds := by
      intro k holds
      rw [logged.guarded.locked k holds] at free
      cases free
    have noReader : ∀ j, ¬ (s.reader j).HasLock := by
      intro j holds
      rw [(logged.alone j holds).1] at free
      cases free
    have all := logged.free none
    refine ⟨guarded, ?_, ?_, ?_, ?_, ?_, fun j holds => (noReader j holds).elim, fun j => ?_⟩
    · dsimp only
      rw [log_begins, List.take_append_of_le_length logged.inside]
      exact logged.model
    · dsimp only
      rw [log_begins, List.length_append]
      exact Nat.le_trans logged.inside (Nat.le_add_right _ _)
    · dsimp only
      rw [List.length_append, List.length_singleton, Nat.add_sub_cancel, List.take_left, all]
      exact Nat.le_refl _
    · intro k holds
      dsimp only at holds ⊢
      by_cases same : k = i
      · subst same
        rw [Function.update_self, log_begins, all, List.drop_left]
        rfl
      · rw [Function.update_of_ne same] at holds
        exact (none k holds).elim
    · intro absent
      dsimp only at absent
      have held := absent i
      rw [Function.update_self] at held
      exact (held trivial).elim
    · exact tracked_begins (logged.readers j) logged.inside g
  | @store e rest value here =>
    rw [History.next, here]
    have held : (s.updates.place i).Holds := by rw [here]; trivial
    have left := logged.holder i held
    rw [here] at left
    change e :: rest = _ at left
    have inside : h.stored < (h.log u).length := by
      have some_left := congrArg List.length left
      rw [List.length_cons, List.length_drop] at some_left
      omega
    have split : (h.log u).take (h.stored + 1) = (h.log u).take h.stored ++ [e] := by
      have first : (h.log u)[h.stored]? = some e := by
        have here := congrArg (fun l => l[0]?) left
        rw [List.getElem?_drop] at here
        exact here.symm
      rw [List.take_add_one, first]
      rfl
    have found := logged.guarded.loaded i e value rest here
    refine ⟨guarded, ?_, inside, Nat.le_succ_of_le logged.whole, ?_, ?_, ?_, fun j => ?_⟩
    · change u.cells.store s.updates.model e.1 (value + e.2) = u.cells.addAll m ((h.log u).take (h.stored + 1))
      rw [split, u.cells.addAll_append, ← logged.model]
      exact (u.cells.add_of_load found).symm
    · intro k holds
      dsimp only at holds ⊢
      by_cases same : k = i
      · subst same
        rw [Function.update_self]
        change rest = (h.log u).drop (h.stored + 1)
        rw [← List.drop_drop, ← left]
        rfl
      · rw [Function.update_of_ne same] at holds
        exact (same (logged.guarded.one k i holds held)).elim
    · intro absent
      dsimp only at absent
      have still := absent i
      rw [Function.update_self] at still
      exact (still trivial).elim
    · exact fun j lock => (logged.unlocked held j lock).elim
    · exact tracked_stores (logged.readers j) (logged.unlocked held j)
  | unlock here =>
    rw [History.next, here]
    have held : (s.updates.place i).Holds := by rw [here]; trivial
    have left := logged.holder i held
    rw [here] at left
    change [] = _ at left
    have all : h.stored = (h.log u).length := by
      have none_left := congrArg List.length left
      rw [List.length_nil, List.length_drop] at none_left
      have inside := logged.inside
      omega
    refine ⟨guarded, logged.model, logged.inside, logged.whole, ?_, fun _ => all, ?_, logged.readers⟩
    · intro k holds
      obtain ⟨other, holds⟩ := holds_update id holds
      exact (other (logged.guarded.one k i holds held)).elim
    · exact fun j lock => (logged.unlocked held j lock).elim

theorem logged_request (logged : Logged u m s h) {j : J} {locked : Bool} {cells : List C} {t : State I J G M C F}
    (taken : step u s (.request j locked cells) = some t) :
    Logged u m t (History.next s h (.request j locked cells : Label I J G C)) := by
  rw [step] at taken
  split at taken
  case h_2 => cases taken
  case h_1 =>
    obtain rfl := Option.some.inj taken
    have fresh : ¬ (if locked then .locking cells else .reading false cells [] : Reader C F).HasLock := by
      cases locked with
      | true => exact id
      | false => exact Bool.false_ne_true
    refine ⟨logged.guarded, logged.model, logged.inside, logged.whole, logged.holder, logged.free, ?_, ?_⟩
    · intro k lock
      have other : ∀ k, (Function.update s.reader j (if locked then .locking cells else .reading false cells []) k).HasLock →
          (s.reader k).HasLock := by
        intro k lock
        by_cases same : k = j
        · subst same
          rw [Function.update_self] at lock
          exact (fresh lock).elim
        · rwa [Function.update_of_ne same] at lock
      obtain ⟨held, none, one⟩ := logged.alone k (other k lock)
      exact ⟨held, none, fun k' lock' => one k' (other k' lock')⟩
    · intro k
      by_cases same : k = j
      · subst same
        simp only [State.withReader, Function.update_self]
        cases locked with
        | true => trivial
        | false => exact ⟨seen_begin u m k logged.whole Bool.noConfusion, Bool.noConfusion⟩
      · simp only [State.withReader, Function.update_of_ne same]
        exact tracked_congr (logged.readers k) rfl rfl (Function.update_of_ne same ..) (Function.update_of_ne same ..)
          (Function.update_of_ne same ..)

omit [DecidableEq I] in
theorem logged_reader (logged : Logged u m s h) {j : J} {t : State I J G M C F} (taken : readerStep u s j = some t) :
    Logged u m t (History.next s h (.reader j : Label I J G C)) := by
  unfold readerStep at taken
  have tracked := logged.readers j
  split at taken
  case h_4 => cases taken
  case h_1 cells here =>
    -- the lock is free, so that every gradient that has begun is in the model
    split at taken
    next => cases taken
    next free =>
      obtain rfl := Option.some.inj taken
      rw [History.next, here]
      have none : ∀ i, ¬ (s.updates.place i).Holds := fun i holds => free (logged.guarded.locked i holds)
      have noReader : ∀ k, ¬ (s.reader k).HasLock := fun k lock => free (logged.alone k lock).1
      have all := logged.free none
      have only : ∀ k, (Function.update s.reader j (.reading true cells []) k).HasLock → k = j := by
        intro k lock
        by_contra other
        rw [Function.update_of_ne other] at lock
        exact noReader k lock
      refine ⟨⟨fun _ _ => rfl, logged.guarded.one, logged.guarded.loaded⟩, logged.model, logged.inside, logged.whole,
        logged.holder, logged.free, ?_, ?_⟩
      · exact fun k lock => ⟨rfl, none, fun k' lock' => (only k' lock').trans (only k lock).symm⟩
      · intro k
        by_cases same : k = j
        · subst same
          simp only [State.withReader, Function.update_self]
          exact ⟨seen_begin u m k logged.whole fun _ => all, fun _ => Function.update_self ..⟩
        · simp only [State.withReader, Function.update_of_ne same]
          exact tracked_congr (logged.readers k) rfl rfl (Function.update_of_ne same ..) (Function.update_of_ne same ..)
            (Function.update_of_ne same ..)
  case h_2 locked c rest got here =>
    obtain ⟨value, loaded, rfl⟩ := Option.map_eq_some_iff.mp taken
    rw [History.next, here]
    rw [here] at tracked
    obtain ⟨seen, quiet⟩ := tracked
    have lock_iff : ∀ k, (Function.update s.reader j (.reading locked rest (got ++ [(c, value)])) k).HasLock ↔
        (s.reader k).HasLock := by
      intro k
      by_cases same : k = j
      · subst same
        rw [Function.update_self, here]
        exact Iff.rfl
      · rw [Function.update_of_ne same]
    refine ⟨logged.guarded, logged.model, logged.inside, logged.whole, logged.holder, logged.free, ?_, ?_⟩
    · intro k lock
      obtain ⟨held, none, one⟩ := logged.alone k ((lock_iff k).mp lock)
      exact ⟨held, none, fun k' lock' => one k' ((lock_iff k').mp lock')⟩
    · intro k
      by_cases same : k = j
      · subst same
        simp only [State.withReader, Function.update_self]
        exact ⟨seen.reads logged.model quiet loaded, quiet⟩
      · simp only [State.withReader, Function.update_of_ne same]
        exact tracked_congr (logged.readers k) rfl rfl rfl rfl (Function.update_of_ne same ..)
  case h_3 locked got here =>
    obtain rfl := Option.some.inj taken
    rw [History.next, here]
    rw [here] at tracked
    have others : ∀ k, (Function.update s.reader j (.replied locked got) k).HasLock → k ≠ j ∧ (s.reader k).HasLock := by
      intro k lock
      by_cases same : k = j
      · subst same
        rw [Function.update_self] at lock
        exact lock.elim
      · rw [Function.update_of_ne same] at lock
        exact ⟨same, lock⟩
    -- the handler that had the lock is the only one that had it
    have kept : ∀ k, (Function.update s.reader j (.replied locked got) k).HasLock → locked = false := by
      intro k lock
      obtain ⟨other, before⟩ := others k lock
      cases locked with
      | false => rfl
      | true => exact (other ((logged.alone j (by rw [here]; rfl)).2.2 k before)).elim
    refine ⟨⟨?_, logged.guarded.one, logged.guarded.loaded⟩, logged.model, logged.inside, logged.whole,
      logged.holder, logged.free, ?_, ?_⟩
    · intro i holds
      dsimp only [State.withReader] at holds ⊢
      cases locked with
      | false => rw [logged.guarded.locked i holds]; rfl
      | true => exact ((logged.alone j (by rw [here]; rfl)).2.1 i holds).elim
    · intro k lock
      obtain ⟨_, before⟩ := others k lock
      obtain ⟨held, none, one⟩ := logged.alone k before
      refine ⟨?_, none, fun k' lock' => one k' (others k' lock').2⟩
      dsimp only [State.withReader]
      rw [held, kept k lock]
      rfl
    · intro k
      by_cases same : k = j
      · subst same
        simp only [State.withReader, Function.update_self]
        exact tracked.1
      · simp only [State.withReader, Function.update_of_ne same]
        exact logged.readers k

theorem logged_step (logged : Logged u m s h) {l : Label I J G C} {t : State I J G M C F} (taken : step u s l = some t) :
    Logged u m t (History.next s h l) := by
  cases l with
  | update l =>
    obtain ⟨updates, moved, rfl⟩ := Option.map_eq_some_iff.mp taken
    cases l with
    | request g =>
      obtain rfl := Option.some.inj moved
      exact { logged with guarded := ⟨logged.guarded.locked, logged.guarded.one, logged.guarded.loaded⟩ }
    | thread i => exact logged_thread logged moved
  | request j locked cells => exact logged_request logged taken
  | reader j => exact logged_reader logged taken

theorem logged_reachable {x : State I J G M C F × History J G}
    (reached : Reachable (recording (step u) History.next) (fun x => x = ({ updates := { model := m } }, {})) anyStep x) :
    Logged u m x.1 x.2 := by
  refine @Reachable.invariant _ _ _ _ _ (fun x => Logged u m x.1 x.2) ?_ ?_ _ reached
  · rintro _ rfl
    refine ⟨⟨fun _ => False.elim, fun _ _ => False.elim, fun _ _ _ _ here => ?_⟩, rfl, Nat.le_refl _, Nat.le_refl _,
      fun _ => False.elim, fun _ => rfl, fun _ => False.elim, fun j => ?_⟩
    · cases here
    exact ⟨.nil, List.pairwise_singleton _ _, fun n member => Nat.le_of_eq (List.mem_singleton.mp member), Nat.le_refl _,
      Nat.le_refl _, Bool.noConfusion⟩
  · intro x l y logged _ taken
    obtain ⟨moved, history⟩ := recording_taken taken
    rw [history]
    exact logged_step logged moved

end Steps

section Once

def waiting : Place G C F → Multiset G
  | .locking g => {g}
  | _ => 0

variable [Fintype I] [DecidableEq I] [DecidableEq J] [Add F] {u : Updates G M C F} {m : M}

/-- Every gradient that came in is in the queue, waits for the lock, or has begun, and that once. -/
theorem begun_once {x : State I J G M C F × History J G}
    (reached : Reachable (recording (step u) History.next) (fun x => x = ({ updates := { model := m } }, {})) anyStep x) :
    (x.2.begun : Multiset G) + ∑ i, waiting (x.1.updates.place i) + x.1.updates.toProcess = x.1.updates.received := by
  refine @Reachable.invariant _ _ _ _ _ (fun x : State I J G M C F × History J G =>
    (x.2.begun : Multiset G) + ∑ i, waiting (x.1.updates.place i) + x.1.updates.toProcess = x.1.updates.received)
    ?_ ?_ _ reached
  · rintro _ rfl
    simp [waiting]
  · rintro ⟨s, h⟩ l ⟨t, h'⟩ before _ taken
    obtain ⟨moved, rfl⟩ := recording_taken taken
    dsimp only at moved before ⊢
    cases l with
    | request j locked cells =>
      rw [step] at moved
      split at moved
      case h_1 =>
        cases moved
        exact before
      case h_2 => cases moved
    | reader j =>
      have kept : t.updates.place = s.updates.place ∧ t.updates.toProcess = s.updates.toProcess ∧
          t.updates.received = s.updates.received ∧ (History.next s h (.reader j : Label I J G C)).begun = h.begun := by
        rw [step, readerStep] at moved
        rw [History.next]
        split at moved
        case h_1 cells here =>
          split at moved
          next => cases moved
          next =>
            cases moved
            rw [here]
            exact ⟨rfl, rfl, rfl, rfl⟩
        case h_2 here =>
          obtain ⟨value, _, rfl⟩ := Option.map_eq_some_iff.mp moved
          rw [here]
          exact ⟨rfl, rfl, rfl, rfl⟩
        case h_3 here =>
          cases moved
          rw [here]
          exact ⟨rfl, rfl, rfl, rfl⟩
        case h_4 => cases moved
      obtain ⟨place, queue, received, begun⟩ := kept
      rw [place, queue, received, begun]
      exact before
    | update l =>
      obtain ⟨updates, one, rfl⟩ := Option.map_eq_some_iff.mp moved
      cases l with
      | request g =>
        obtain rfl := Option.some.inj one
        rw [History.next]
        simp only [← Multiset.coe_add]
        rw [← add_assoc, before]
      | thread i =>
        have move := threadStep_moves one
        obtain ⟨others, all, after⟩ := sum_moves waiting s.updates.place i
        rw [all] at before
        cases move with
        | @take g rest here queue =>
          rw [History.next, here]
          rw [here, queue] at before
          dsimp only
          rw [after, ← before, ← Multiset.cons_coe, ← Multiset.singleton_add]
          simp only [waiting]
          abel
        | @lock g here free =>
          rw [History.next, here]
          rw [here] at before
          dsimp only
          rw [after, ← before, ← Multiset.coe_add, Multiset.coe_singleton]
          simp only [waiting]
          abel
        | load here found =>
          rw [History.next, here]
          rw [here] at before
          dsimp only
          rw [after]
          exact before
        | store here =>
          rw [History.next, here]
          rw [here] at before
          dsimp only
          rw [after]
          exact before
        | unlock here =>
          rw [History.next, here]
          rw [here] at before
          dsimp only
          rw [after]
          exact before
        | count here =>
          rw [History.next, here]
          rw [here] at before
          dsimp only
          rw [after]
          exact before

end Once

structure Answers [Add F] (u : Updates G M C F) (m : M) (x : State I J G M C F × History J G) : Prop where
  replies : ∀ j locked got, x.1.reader j = .replied locked got → Seen u m x.2 j locked got
  once : (x.2.begun : Multiset G) ≤ x.1.updates.received

theorem answers [Fintype I] [DecidableEq I] [DecidableEq J] [Add F] {u : Updates G M C F} {m : M}
    {x : State I J G M C F × History J G}
    (reached : Reachable (recording (step u) History.next) (fun x => x = ({ updates := { model := m } }, {})) anyStep x) :
    Answers u m x where
  replies j locked got here := by
    have tracked := (logged_reachable reached).readers j
    rw [here] at tracked
    exact tracked
  once := by
    rw [← begun_once reached, add_assoc]
    exact Multiset.le_add_right _ _

/-- Whatever the threads do in between, each weight of a reply is the initial one with a part of what the gradients
add, in the order in which they got the lock, that only grows from one weight to the next; and the copy
of a whole model has whole gradients. This is so of both models. -/
theorem reads_see_prefixes [Fintype I] [DecidableEq I] [DecidableEq J] [Add F] [Mul F] (learningRate : F) :
    (∀ (m : SparseLRModel F) (x : State I J (LRSparseGradient F) (SparseLRModel F) Nat F × History J (LRSparseGradient F)),
      Reachable (recording (step (lrUpdates learningRate)) History.next) (fun x => x = ({ updates := { model := m } }, {}))
        anyStep x → Answers (lrUpdates learningRate) m x) ∧
    (∀ (m : MFModel F) (x : State I J (MFSparseGradient F) (MFModel F) Parameter F × History J (MFSparseGradient F)),
      Reachable (recording (step (mfUpdates m.nfactors)) History.next) (fun x => x = ({ updates := { model := m } }, {}))
        anyStep x → Answers (mfUpdates m.nfactors) m x) :=
  ⟨fun _ _ reached => answers reached, fun _ _ reached => answers reached⟩

section Example

local instance readers_neZero : NeZero 1 := ⟨by decide⟩

/-- A request comes when the first of the two entries of a gradient is stored and the second is not. -/
def tornRead : List (Label (Fin 1) (Fin 1) (LRSparseGradient ℤ) Nat) :=
  [.update (.request secondGradient), .update (.thread 0), .update (.thread 0), .update (.thread 0), .update (.thread 0),
    .request 0 false [0, 1], .reader 0, .reader 0, .reader 0]

theorem reads_see_prefixes_torn : ∃ x : State (Fin 1) (Fin 1) (LRSparseGradient ℤ) (SparseLRModel ℤ) Nat ℤ ×
      History (Fin 1) (LRSparseGradient ℤ),
    x.1.reader 0 = .replied false [(0, 14), (1, 20)] ∧ x.2.seenAt 0 = [1, 1] ∧ Answers (lrUpdates 2) twoWeights x := by
  have run : (follow (recording (step (lrUpdates 2)) History.next)
      ({ updates := { model := twoWeights } }, {}) tornRead).map (fun x => (x.1.reader 0, x.2.seenAt 0)) =
      some (.replied false [(0, 14), (1, 20)], [1, 1]) := rfl
  obtain ⟨x, taken, ends⟩ := Option.map_eq_some_iff.mp run
  simp only [Prod.mk.injEq] at ends
  exact ⟨x, ends.1, ends.2, (reads_see_prefixes 2).1 twoWeights x (.follow (.start rfl) taken)⟩

end Example
end ModelReads

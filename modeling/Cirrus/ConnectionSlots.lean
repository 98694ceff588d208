import Cirrus.RequestSlots

/-
The slots that accepted sockets are stored in. Thread 0 appends to the array
of whichever poll thread it draws; the check for room looks at its own array,
and the other threads take slots back only in a purge of a full array. So what
decides is how many connections have been drawn for a thread and how many
slots its purges have taken back, and both are kept as a history here.
-/
namespace Connections
open Transition

variable {nWork : Nat} {host : Host}

attribute [local instance] threads_neZero

def keeps (host : Host) (s : State nWork) : Label nWork → Option (Int × PollThread)
  | .scan t newsock r =>
    match s.pollPc t with
    | .scanning i =>
      if t = 0 ∧ i < s.currIndexes t ∧ (s.fdses (t, i)).fd = host.serverSock ∧
          (s.fdses (t, i)).revents = pollIn ∧ 0 ≤ newsock ∧ ¬ atCapacity host s ∧
          s.currIndexes 0 ≠ maxFds then
        some (newsock, r)
      else none
    | _ => none
  | _ => none

/-- For each poll thread, the connections drawn for it and the slots its purges have taken back. -/
structure History where
  drawn : PollThread → Nat := fun _ => 0
  reclaimed : PollThread → Nat := fun _ => 0

def History.next (host : Host) (s : State nWork) (h : History) : Label nWork → History
  | .purge t =>
    if s.currIndexes t = maxFds then
      { h with
        reclaimed := Function.update h.reclaimed t
          (h.reclaimed t + Compaction.removed dead (s.row t) maxFds) }
    else h
  | l =>
    match keeps host s l with
    | some (_, r) => { h with drawn := Function.update h.drawn r (h.drawn r + 1) }
    | none => h

variable {s t : State nWork} {l : Label nWork} {h : History}

def StoredWithin (host : Host) (s : State nWork) (l : Label nWork) : Prop :=
  ∀ newsock r, keeps host s l = some (newsock, r) → s.currIndexes r < maxFds

/-- Every open connection is in one of the slots that are polled, and in no other of them. -/
structure Slotted (s : State nWork) : Prop where
  within : ∀ t, s.currIndexes t ≤ maxFds
  polled : ∀ f c, s.sockets f = some c →
    ∃! p : Slot, p.2 < s.currIndexes p.1 ∧ (s.fdses p).fd = f

/-- A socket is kept for a thread other than 0 only while that thread's own slots and the connections
drawn for it come to fewer than the slots of its array and those it has taken back, and the
socket's descriptor is named in no slot in use. -/
def Roomy (host : Host) (s : State nWork) (h : History) (l : Label nWork) : Prop :=
  ∀ newsock r, keeps host s l = some (newsock, r) →
    (r ≠ 0 → base r + h.drawn r < maxFds + h.reclaimed r) ∧
      ∀ p, s.client p → (s.fdses p).fd ≠ newsock

structure Keeping (host : Host) (s t : State nWork) (newsock : Int) (r : PollThread) : Prop where
  free : ¬ inUse host s newsock
  valid : 0 ≤ newsock
  first : s.currIndexes 0 ≠ maxFds
  result : ∃ i, t = (resetRevents
    (if s.currIndexes r < maxFds then store s newsock r else { s with health := .undefined })
    (0, i)).setPc 0 (.scanning (i + 1))

theorem keeping_of_keeps {newsock : Int} {r : PollThread}
    (kept : keeps host s l = some (newsock, r)) (taken : step host s l = some t) :
    Keeping host s t newsock r := by
  unfold keeps at kept
  split at kept
  · rename_i p newsock' r'
    split at kept
    · rename_i i here
      simp only [Option.ite_none_right_eq_some, Option.some.injEq, Prod.mk.injEq] at kept
      obtain ⟨⟨rfl, inside, listening, event, valid, below, roomy⟩, rfl, rfl⟩ := kept
      have server : (s.fdses (0, i)).fd ≠ -1 := by
        have := host.serverSock_nonneg
        omega
      have accepted : scanSlot host s (0, i) newsock' r' = resetRevents
          (if s.currIndexes r' < maxFds then store s newsock' r'
            else { s with health := .undefined }) (0, i) := by
        unfold scanSlot acceptConnection
        dsimp only
        rw [if_neg server, if_neg (not_not.mpr event), if_pos ⟨rfl, listening⟩,
          if_neg (Int.not_lt.mpr valid), if_neg below, if_neg roomy]
      unfold step at taken
      simp only [here, Option.ite_none_left_eq_some, inside, if_true, accepted,
        Option.some.injEq] at taken
      obtain ⟨_, free, rfl⟩ := taken
      exact ⟨free, valid, roomy, i, rfl⟩
    · cases kept
  · cases kept

theorem keeps_scan {i : Nat} (here : s.pollPc 0 = .scanning i) (inside : i < s.currIndexes 0)
    (listening : (s.fdses (0, i)).fd = host.serverSock) (event : (s.fdses (0, i)).revents = pollIn)
    {newsock : Int} (valid : 0 ≤ newsock) (below : ¬ atCapacity host s)
    (roomy : s.currIndexes 0 ≠ maxFds) (r : PollThread) :
    keeps host s (.scan 0 newsock r) = some (newsock, r) := by
  simp only [keeps, here]
  rw [if_pos ⟨trivial, inside, listening, event, valid, below, roomy⟩]

theorem afterPoll_frame (s : State nWork) (t : PollThread) (ready : Nat → UInt16) :
    (afterPoll s t ready).toProcess = s.toProcess ∧ (afterPoll s t ready).worker = s.worker ∧
      (afterPoll s t ready).health = s.health ∧
      (afterPoll s t ready).currIndexes = s.currIndexes := by
  unfold afterPoll
  dsimp only
  split
  · exact ⟨rfl, rfl, rfl, rfl⟩
  · split
    · exact ⟨rfl, rfl, rfl, rfl⟩
    · exact ⟨rfl, rfl, rfl, rfl⟩

structure Logged (host : Host) (s : State nWork) (h : History) : Prop where
  placed : Placed host s
  queued : ∀ q ∈ s.toProcess, base q.id ≤ q.pollFd
  held : ∀ w q, (s.worker w).request = some q → base q.id ≤ q.pollFd
  defined : s.health ≠ .undefined
  counts : ∀ t, s.currIndexes t + h.reclaimed t = base t + h.drawn t

theorem Logged.frame (logged : Logged host s h) (placed : Placed host t)
    (toProcess : t.toProcess = s.toProcess) (worker : t.worker = s.worker)
    (health : t.health = s.health) (currIndexes : t.currIndexes = s.currIndexes) :
    Logged host t h := by
  refine ⟨placed, ?_, ?_, ?_, ?_⟩
  · rw [toProcess]
    exact logged.queued
  · rw [worker]
    exact logged.held
  · rw [health]
    exact logged.defined
  · rw [currIndexes]
    exact logged.counts

theorem logged_start : Logged host (start host nWork) {} := by
  refine ⟨placed_start, ?_, ?_, ?_, fun _ => rfl⟩
  · intro q queued
    cases queued
  · intro w q held
    cases held
  · intro undefined
    cases undefined

theorem logged_terminated (logged : Logged host s h) :
    Logged host { s with health := .terminated } h :=
  ⟨logged.placed.frame rfl rfl rfl, logged.queued, logged.held, by rintro ⟨⟩, logged.counts⟩

theorem logged_setPc (logged : Logged host s h) (p : PollThread) (pc : PollPc) :
    Logged host (s.setPc p pc) h :=
  logged.frame (logged.placed.frame rfl rfl rfl) rfl rfl rfl rfl

theorem logged_resetRevents (logged : Logged host s h) (p : Slot) :
    Logged host (resetRevents s p) h :=
  logged.frame (placed_resetRevents logged.placed p) rfl rfl rfl rfl

theorem logged_handleFailedRead (logged : Logged host s h) {p : Slot}
    (above : base p.1 ≤ p.2) : Logged host (handleFailedRead s p) h := by
  obtain ⟨toProcess, worker, health, currIndexes⟩ := handleFailedRead_frame s p
  exact logged.frame (placed_handleFailedRead logged.placed above) toProcess worker health currIndexes

theorem logged_setWorker (logged : Logged host s h) (w : Fin nWork) {pc : WorkerPc}
    (above : ∀ q, pc.request = some q → base q.id ≤ q.pollFd) : Logged host (s.setWorker w pc) h := by
  refine ⟨logged.placed.frame rfl rfl rfl, logged.queued, ?_, logged.defined, logged.counts⟩
  exact forall_update (P := fun pc : WorkerPc => ∀ q, pc.request = some q → base q.id ≤ q.pollFd)
    logged.held above

theorem Logged.room (logged : Logged host s h) (first : s.currIndexes 0 ≠ maxFds) (r : PollThread) :
    s.currIndexes r < maxFds ↔ (r ≠ 0 → base r + h.drawn r < maxFds + h.reclaimed r) := by
  have counts := logged.counts r
  have fits := (logged.placed.room r).2
  constructor
  · intro room _
    omega
  · intro roomy
    rcases Classical.em (r = 0) with rfl | other
    · omega
    · have := roomy other
      omega

theorem logged_store (logged : Logged host s h) {newsock : Int} {r : PollThread}
    (kept : keeps host s l = some (newsock, r)) (roomy : Roomy host s h l)
    (taken : step host s l = some t) :
    Logged host t { h with drawn := Function.update h.drawn r (h.drawn r + 1) } := by
  obtain ⟨free, valid, first, i, rfl⟩ := keeping_of_keeps kept taken
  obtain ⟨few, fresh⟩ := roomy newsock r kept
  have room := (logged.room first r).mpr few
  rw [if_pos room]
  apply logged_setPc
  apply logged_resetRevents
  refine ⟨placed_store logged.placed free valid room fresh, logged.queued, logged.held,
    logged.defined, ?_⟩
  intro u
  have counts := logged.counts u
  dsimp only [store]
  rcases Classical.em (u = r) with rfl | other
  · rw [Function.update_self, Function.update_self]
    omega
  · rwa [Function.update_of_ne other, Function.update_of_ne other]

theorem logged_purgeSlots (logged : Logged host s h) {p : PollThread}
    (full : s.currIndexes p = maxFds) :
    Logged host (purgeSlots s p)
      { h with
        reclaimed := Function.update h.reclaimed p
          (h.reclaimed p + Compaction.removed dead (s.row p) maxFds) } := by
  refine ⟨placed_purge logged.placed full, logged.queued, logged.held, logged.defined, ?_⟩
  intro u
  have counts := logged.counts u
  dsimp only [purgeSlots]
  rcases Classical.em (u = p) with rfl | other
  · have split := Compaction.removed_add_rank dead (s.row u) maxFds
    rw [Function.update_self, Function.update_self]
    omega
  · rwa [Function.update_of_ne other, Function.update_of_ne other]

theorem logged_purge (logged : Logged host s h) {p : PollThread}
    (taken : step host s (.purge p) = some t) : Logged host t (h.next host s (.purge p)) := by
  unfold step at taken
  simp only [Option.ite_none_left_eq_some, Option.ite_none_right_eq_some, Option.some.injEq] at taken
  obtain ⟨_, _, rfl⟩ := taken
  apply logged_setPc
  dsimp only [History.next]
  split
  · exact logged_purgeSlots logged ‹_›
  · exact logged

theorem logged_other (logged : Logged host s h) (none_kept : keeps host s l = none)
    (scanning : ∀ p, l ≠ .purge p) (taken : step host s l = some t) : Logged host t h := by
  cases move_of_step taken with
  | @poll p ready polling told =>
    obtain ⟨toProcess, worker, health, currIndexes⟩ := afterPoll_frame s p ready
    exact logged.frame (placed_afterPoll logged.placed told) toProcess worker health currIndexes
  | interrupted polling => exact logged_setPc logged _ _
  | skip here inside gone => exact logged_setPc logged _ _
  | quiet here inside live => exact logged_setPc (logged_resetRevents logged _) _ _
  | @hangUp p i newsock r here inside live hup =>
    refine logged_setPc (logged_handleFailedRead logged ?_) _ _
    rcases Nat.lt_or_ge i (base p) with own | above
    · exact absurd (logged.placed.quiet (p, i) own).1 hup
    · exact above
  | @accept i newsock r here inside free listening event =>
    refine logged_setPc (logged_resetRevents ?_ _) _ _
    unfold acceptConnection
    split
    · exact logged_terminated logged
    · rename_i valid
      split
      · exact logged
      · rename_i below
        split
        · exact logged_terminated logged
        · rename_i roomy
          rw [keeps_scan here inside listening event (Int.not_lt.mp valid) below roomy] at none_kept
          cases none_kept
  | @process p i newsock r here inside live event other =>
    have above := (processed_client logged.placed inside event other).1
    refine logged_setPc (logged_resetRevents ?_ _) _ _
    have asked : Placed host (s.setSlot (p, i) { s.fdses (p, i) with events := 0 }) :=
      placed_setSlot logged.placed rfl (Or.inl rfl)
    refine ⟨asked.frame rfl rfl rfl, ?_, logged.held, logged.defined, logged.counts⟩
    intro q queued
    rcases List.mem_append.mp queued with old | new
    · exact logged.queued q old
    · rw [List.mem_singleton.mp new]
      exact above
  | scanned => exact logged_setPc logged _ _
  | @roomy p => exact absurd rfl (scanning p)
  | @purge p full => exact absurd rfl (scanning p)
  | @take w req rest free front =>
    have above : ∀ q ∈ req :: rest, base q.id ≤ q.pollFd := front ▸ logged.queued
    rw [List.forall_mem_cons] at above
    have handed : Logged host (s.setWorker w (.handling req (s.fdses req.slot).fd)) h := by
      apply logged_setWorker logged
      rintro q ⟨⟩
      exact above.1
    exact ⟨handed.placed.frame rfl rfl rfl, above.2, handed.held, handed.defined, handed.counts⟩
  | @serve w req sock outcome handling readable =>
    have above : base req.id ≤ req.pollFd := logged.held w req (by rw [handling]; rfl)
    have closed := logged_handleFailedRead logged (show base req.slot.1 ≤ req.slot.2 from above)
    cases outcome with
    | served =>
      apply logged_setWorker logged
      rintro q ⟨⟩
      exact above
    | failedReadOfOperation =>
      apply logged_setWorker closed
      rintro q ⟨⟩
    | failedRead =>
      apply logged_setWorker closed
      rintro q ⟨⟩
      exact above
    | threw => exact logged_terminated logged
  | @rearm w req gone rearming =>
    have armed : Placed host (s.setSlot req.slot { s.fdses req.slot with events := pollIn }) :=
      placed_setSlot logged.placed rfl (Or.inl rfl)
    apply logged_setWorker (logged.frame armed rfl rfl rfl rfl)
    rintro q ⟨⟩

theorem logged_step (logged : Logged host s h) (roomy : Roomy host s h l)
    (taken : step host s l = some t) : Logged host t (h.next host s l) := by
  cases kept : keeps host s l with
  | some k =>
    obtain ⟨newsock, r⟩ := k
    have next : h.next host s l =
        { h with drawn := Function.update h.drawn r (h.drawn r + 1) } := by
      cases l with
      | purge p => cases kept
      | _ => simp only [History.next, kept]
    rw [next]
    exact logged_store logged kept roomy taken
  | none =>
    cases l with
    | purge p => exact logged_purge logged taken
    | _ =>
      simp only [History.next, kept]
      exact logged_other logged kept (by rintro p ⟨⟩) taken

theorem logged_of_reachable
    (reached : Reachable (recording (step host) (History.next host))
      (fun x => atStart host x.1 ∧ x.2 = {}) (fun x => Roomy host x.1 x.2) (s, h)) :
    Logged host s h := by
  refine @Reachable.invariant _ _ _ _ _ (fun x => Logged host x.1 x.2) ?_ ?_ _ reached
  · rintro ⟨s, h⟩ ⟨begin, rfl⟩
    dsimp only at begin ⊢
    rw [begin]
    exact logged_start
  · rintro ⟨s, h⟩ l ⟨t, h'⟩ logged roomy taken
    obtain ⟨moved, rfl⟩ := recording_taken taken
    exact logged_step logged roomy moved

theorem Placed.slotted (placed : Placed host s) : Slotted s := by
  refine ⟨fun t => (placed.room t).2, ?_⟩
  intro f c opened
  obtain ⟨p, here, eq⟩ := placed.held f c opened
  obtain ⟨valid, server, pipe⟩ := placed.foreign f c opened
  refine ⟨p, ⟨here.2, eq⟩, ?_⟩
  rintro p' ⟨inside, eq'⟩
  rcases Nat.lt_or_ge p'.2 (base p'.1) with own | above
  · have held := placed.own p' own
    unfold ownFd at held
    split at held
    · exact absurd (eq'.symm.trans held) server
    · exact absurd (eq'.symm.trans held) (pipe _)
  · exact (placed.apart p p' here ⟨above, inside⟩ (by omega) (eq.trans eq'.symm)).symm

theorem fresh_of_slotted {newsock : Int} {r : PollThread}
    (kept : keeps host s l = some (newsock, r)) (taken : step host s l = some t)
    (room : s.currIndexes r < maxFds) (slotted : Slotted t) (p : Slot) (here : s.client p) :
    (s.fdses p).fd ≠ newsock := by
  intro named
  obtain ⟨free, valid, first, i, rfl⟩ := keeping_of_keeps kept taken
  rw [if_pos room] at slotted
  have opened : (store s newsock r).sockets newsock = some s.accepted := Function.update_self _ _ _
  have fds : ∀ q, ((resetRevents (store s newsock r) (0, i)).fdses q).fd =
      ((store s newsock r).fdses q).fd := resetRevents_fd _ _
  have other : p ≠ (r, s.currIndexes r) := client_ne_next here r
  have grown : ∀ q : Slot, q.2 < s.currIndexes q.1 ∨ q = (r, s.currIndexes r) →
      q.2 < (store s newsock r).currIndexes q.1 := by
    rintro ⟨u, j⟩ inside
    dsimp only [store] at inside ⊢
    rcases Classical.em (u = r) with rfl | away
    · rw [Function.update_self]
      simp only [Prod.mk.injEq, true_and] at inside
      omega
    · rw [Function.update_of_ne away]
      simpa [away] using inside
  obtain ⟨q, _, only⟩ := slotted.polled newsock s.accepted opened
  have old := only p ⟨grown p (Or.inl here.2), by
    change ((resetRevents (store s newsock r) (0, i)).fdses p).fd = newsock
    rw [fds, ← named]
    exact congrArg PollFd.fd (Function.update_of_ne other _ _)⟩
  have new := only (r, s.currIndexes r) ⟨grown _ (Or.inr rfl), by
    change ((resetRevents (store s newsock r) (0, i)).fdses (r, s.currIndexes r)).fd = newsock
    rw [fds]
    simp [store, State.setSlot]⟩
  exact other (old.trans new.symm)

/-- In a run whose steps have been roomy so far every open connection is in one slot in use, and the
next step keeps it so, and stores inside the array, exactly when it is roomy as well. -/
theorem slotted_while_roomy
    (reached : Reachable (recording (step host) (History.next host))
      (fun x => atStart host x.1 ∧ x.2 = {}) (fun x => Roomy host x.1 x.2) (s, h)) :
    Slotted s ∧ ∀ l t, step host s l = some t →
      (StoredWithin host s l ∧ Slotted t ↔ Roomy host s h l) := by
  have logged := logged_of_reachable reached
  refine ⟨logged.placed.slotted, ?_⟩
  intro l t taken
  constructor
  · rintro ⟨within, slotted⟩ newsock r kept
    have first := (keeping_of_keeps kept taken).first
    have room := within newsock r kept
    exact ⟨(logged.room first r).mp room, fresh_of_slotted kept taken room slotted⟩
  · intro roomy
    refine ⟨?_, (logged_step logged roomy taken).placed.slotted⟩
    intro newsock r kept
    have first := (keeping_of_keeps kept taken).first
    exact (logged.room first r).mpr (roomy newsock r kept).1

/-- Thread 0 draws thread 1 a 2000th time, for an array of 2000 slots that keeps one for the pipe. -/
theorem stored_past_full_array :
    ¬ ∀ (host : Host) (s : State 4), Reachable (step host) (atStart host) anyStep s →
      Slotted s ∧ ∀ l t, step host s l = some t → StoredWithin host s l := by
  intro always
  let waiting := crowded.setSlot (0, 0) { crowded.fdses (0, 0) with revents := pollIn }
  have before := filled_reachable (show 1999 < maxFds by decide)
  have called := Reachable.step before trivial (poll_called (filled_quiet 1999))
  have free : ¬ inUse busyHost waiting 2007 := filled_free 1999
  have below : ¬ atCapacity busyHost (waiting.setPc 0 (.scanning 0)) := filled_below (by decide)
  have taken := step_scan waiting 0 0 rfl (by decide) free 1
  have kept : keeps busyHost (waiting.setPc 0 (.scanning 0)) (.scan 0 2007 1) = some (2007, 1) :=
    keeps_scan rfl (by decide) rfl rfl (by decide) below (by decide) 1
  have within := (always busyHost _ called).2 _ _ taken 2007 1 kept
  exact absurd within (by decide)

section Visit

local instance slottedWorkers_neZero : NeZero 4 := ⟨by decide⟩

def Early (x : State 4 × History) (l : Label 4) : Prop :=
  keeps busyHost x.1 l = none ∨ ∀ t, x.2.drawn t = 0 ∧ x.1.currIndexes t = base t

instance (x : State 4 × History) (l : Label 4) : Decidable (Early x l) := inferInstanceAs (Decidable (_ ∨ _))

theorem roomy_of_early {s : State 4} {l : Label 4} (early : Early (s, h) l) : Roomy busyHost s h l := by
  intro newsock r kept
  rcases early with none | first
  · rw [none] at kept
    cases kept
  · refine ⟨?_, ?_⟩
    · intro _
      rw [(first r).1]
      have few : base r ≤ 2 := by
        unfold base
        split <;> decide
      exact Nat.lt_of_le_of_lt few (Nat.lt_of_lt_of_le (by decide) (Nat.le_add_right maxFds _))
    · rintro p ⟨own, used⟩
      rw [(first p.1).2] at used
      omega

theorem first_client_slotted : ∃ (s : State 4) (h : History),
    followIf (recording (step busyHost) (History.next busyHost)) Early (start busyHost 4, {}) clientVisit =
      some (s, h) ∧ s.accepted = 1 ∧ s.closed = [0] ∧ h.drawn 1 = 1 ∧
    Slotted s ∧ ∀ l t, step busyHost s l = some t →
      (StoredWithin busyHost s l ∧ Slotted t ↔ Roomy busyHost s h l) := by
  have outcome : (followIf (recording (step busyHost) (History.next busyHost)) Early (start busyHost 4, {})
      clientVisit).map (fun x => (x.1.accepted, x.1.closed, x.2.drawn 1)) = some (1, [0], 1) := by decide
  obtain ⟨⟨s, h⟩, taken, facts⟩ := Option.map_eq_some_iff.mp outcome
  simp only [Prod.mk.injEq] at facts
  obtain ⟨accepted, closed, drawn⟩ := facts
  have reached : Reachable (recording (step busyHost) (History.next busyHost))
      (fun x => atStart busyHost x.1 ∧ x.2 = {}) Early (s, h) := by
    have begun : atStart busyHost (start busyHost 4) := rfl
    exact Reachable.followIf (.start ⟨begun, rfl⟩) taken
  have roomy : Reachable (recording (step busyHost) (History.next busyHost))
      (fun x => atStart busyHost x.1 ∧ x.2 = {}) (fun x => Roomy busyHost x.1 x.2) (s, h) :=
    reached.weaken fun x l early => roomy_of_early early
  exact ⟨s, h, taken, accepted, closed, drawn, slotted_while_roomy roomy⟩

end Visit

/-- While failed reads find their slots in use and open, no slot names a closed descriptor and only
the counts matter. -/
theorem roomy_of_orderly (reached : Reachable (step host) (atStart host) (Orderly host) s)
    (taken : step host s l = some t) :
    Roomy host s h l ↔ ∀ newsock r, keeps host s l = some (newsock, r) →
      r ≠ 0 → base r + h.drawn r < maxFds + h.reclaimed r := by
  have table := (booked_of_reachable reached).table
  constructor
  · intro roomy newsock r kept
    exact (roomy newsock r kept).1
  · intro few newsock r kept
    have keeping := keeping_of_keeps kept taken
    exact ⟨few newsock r kept, table.fresh keeping.free keeping.valid⟩

theorem recorded_run (reached : Reachable (step host) (atStart host) anyStep s) :
    ∃ h, Reachable (recording (step host) (History.next host))
      (fun x => atStart host x.1 ∧ x.2 = {}) anyStep (s, h) :=
  reached.recorded ({} : History)

end Connections

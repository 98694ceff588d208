import Cirrus.ConnectionAccounting

/-
The requests in flight and the slots they refer to. A request keeps a
reference to the slot it was read from, so the purge must not move that slot
and nobody else may close it once a worker is about to re-arm it.
-/
namespace Connections
open Transition

variable {nWork : Nat} {host : Host}

def State.outstanding (s : State nWork) (q : Request) : Prop :=
  q ∈ s.toProcess ∨ ∃ w, (s.worker w).request = some q

/-- The request's slot holds the connection the request was read from, and waits for no event. -/
def Live (s : State nWork) (q : Request) : Prop :=
  ∃ c, s.sockets (s.fdses q.slot).fd = some c ∧ q.conn = some c ∧
    (s.fdses q.slot).events = 0 ∧ (s.fdses q.slot).revents ≠ pollIn

/-- The request's connection has been closed and its slot marked. -/
def Gone (s : State nWork) (q : Request) : Prop :=
  (s.fdses q.slot).fd = -1 ∧ ∃ c ∈ s.closed, q.conn = some c

structure Slots (s : State nWork) : Prop where
  queued : ∀ q ∈ s.toProcess, Live s q ∨ Gone s q
  handling : ∀ w q sock, s.worker w = .handling q sock →
    Live s q ∧ (s.fdses q.slot).fd = sock ∨ Gone s q ∧ s.sockets sock = none
  rearming : ∀ w q gone, s.worker w = .rearming q gone →
    gone = false ∧ Live s q ∨ gone = true ∧ Gone s q
  client : ∀ q, s.outstanding q → s.client q.slot
  nodup : (s.toProcess.map Request.slot).Nodup
  apart : ∀ w w' q q', (s.worker w).request = some q → (s.worker w').request = some q' →
    q.slot = q'.slot → w = w'
  disjoint : ∀ w q q', (s.worker w).request = some q → q' ∈ s.toProcess → q.slot ≠ q'.slot
  armed : ∀ p, s.client p → (s.fdses p).fd ≠ -1 → (∀ q, s.outstanding q → q.slot ≠ p) →
    (s.fdses p).events = pollIn

theorem slots_start : Slots (start host nWork) := by
  refine ⟨?_, ?_, ?_, ?_, List.nodup_nil, ?_, ?_, ?_⟩
  · intro q queued
    cases queued
  · intro w q sock handling
    cases handling
  · intro w q gone rearming
    cases rearming
  · rintro q (queued | ⟨w, held⟩)
    · cases queued
    · cases held
  · intro w w' q q' held
    cases held
  · intro w q q' held
    cases held
  · intro p here
    have above := here.1
    have below := here.2
    simp only [start] at below
    omega

theorem live_or_gone {s : State nWork} (inv : Slots s) {q : Request} (out : s.outstanding q) :
    Live s q ∨ Gone s q := by
  rcases out with queued | ⟨w, held⟩
  · exact inv.queued q queued
  · cases here : s.worker w with
    | free => simp [here, WorkerPc.request] at held
    | handling req sock =>
      obtain rfl : req = q := by simpa [here, WorkerPc.request] using held
      exact (inv.handling w req sock here).imp And.left And.left
    | rearming req gone =>
      obtain rfl : req = q := by simpa [here, WorkerPc.request] using held
      exact (inv.rearming w req gone here).imp And.right And.right

theorem worker_outstanding {s : State nWork} {w : Fin nWork} {q : Request}
    (held : (s.worker w).request = some q) : s.outstanding q := Or.inr ⟨w, held⟩

/-- Steps of the poll threads that queue nothing: each request keeps its slot, or loses its
connection while no worker is about to re-arm it. -/
theorem Slots.polled {s s' : State nWork} (inv : Slots s) (toProcess : s'.toProcess = s.toProcess)
    (worker : s'.worker = s.worker)
    (client : ∀ q, s.outstanding q → s'.client q.slot)
    (gone : ∀ q, s.outstanding q → Gone s q → Gone s' q)
    (live : ∀ q, s.outstanding q → Live s q →
      Live s' q ∧ (s'.fdses q.slot).fd = (s.fdses q.slot).fd ∨
        Gone s' q ∧ s'.sockets (s.fdses q.slot).fd = none ∧
          ∀ w closed, s.worker w ≠ .rearming q closed)
    (shut : ∀ w q sock, s.worker w = .handling q sock → s.sockets sock = none →
      s'.sockets sock = none)
    (armed : ∀ p, s'.client p → (s'.fdses p).fd ≠ -1 → (∀ q, s.outstanding q → q.slot ≠ p) →
      (s'.fdses p).events = pollIn) : Slots s' := by
  have same : ∀ q, s'.outstanding q ↔ s.outstanding q := by
    intro q
    simp only [State.outstanding, toProcess, worker]
  refine ⟨?_, ?_, ?_, ?_, ?_, ?_, ?_, ?_⟩
  · intro q queued
    rw [toProcess] at queued
    rcases inv.queued q queued with here | away
    · exact (live q (Or.inl queued) here).imp And.left And.left
    · exact Or.inr (gone q (Or.inl queued) away)
  · intro w q sock handling
    rw [worker] at handling
    have out : s.outstanding q := worker_outstanding (by rw [handling]; rfl)
    rcases inv.handling w q sock handling with ⟨here, eq⟩ | ⟨away, none⟩
    · rcases live q out here with ⟨still, fd⟩ | ⟨lost, none, _⟩
      · exact Or.inl ⟨still, fd.trans eq⟩
      · exact Or.inr ⟨lost, eq ▸ none⟩
    · exact Or.inr ⟨gone q out away, shut w q sock handling none⟩
  · intro w q closed rearming
    rw [worker] at rearming
    have out : s.outstanding q := worker_outstanding (by rw [rearming]; rfl)
    rcases inv.rearming w q closed rearming with ⟨flag, here⟩ | ⟨flag, away⟩
    · rcases live q out here with ⟨still, _⟩ | ⟨_, _, never⟩
      · exact Or.inl ⟨flag, still⟩
      · exact absurd rearming (never w closed)
    · exact Or.inr ⟨flag, gone q out away⟩
  · intro q out
    exact client q ((same q).mp out)
  · rw [toProcess]
    exact inv.nodup
  · rw [worker]
    exact inv.apart
  · rw [worker, toProcess]
    exact inv.disjoint
  · intro p here held free
    exact armed p here held fun q out => free q ((same q).mpr out)

theorem Slots.flags {s s' : State nWork} (inv : Slots s) (toProcess : s'.toProcess = s.toProcess)
    (worker : s'.worker = s.worker) (sockets : s'.sockets = s.sockets)
    (closed : s'.closed = s.closed) (currIndexes : s'.currIndexes = s.currIndexes)
    (fd : ∀ p, (s'.fdses p).fd = (s.fdses p).fd)
    (events : ∀ p, (s'.fdses p).events = (s.fdses p).events)
    (revents : ∀ q, s.outstanding q → Live s q → (s'.fdses q.slot).revents ≠ pollIn) :
    Slots s' := by
  have client : ∀ p, s'.client p ↔ s.client p := by
    intro p
    simp only [State.client, currIndexes]
  apply inv.polled toProcess worker
  · intro q out
    exact (client _).mpr (inv.client q out)
  · rintro q _ ⟨marked, c, member, conn⟩
    exact ⟨(fd _).trans marked, c, closed ▸ member, conn⟩
  · intro q out here
    refine Or.inl ⟨?_, fd _⟩
    obtain ⟨c, opened, conn, silent, _⟩ := here
    exact ⟨c, by rw [fd, sockets, opened], conn, (events _).trans silent,
      revents q out ⟨c, opened, conn, silent, ‹_›⟩⟩
  · intro w q sock _ none
    rw [sockets, none]
  · intro p here held free
    rw [fd] at held
    rw [events]
    exact inv.armed p ((client p).mp here) held free

theorem slots_setPc {s : State nWork} (inv : Slots s) (t : PollThread) (pc : PollPc) :
    Slots (s.setPc t pc) :=
  inv.flags rfl rfl rfl rfl rfl (fun _ => rfl) (fun _ => rfl) fun _ _ ⟨_, _, _, _, quiet⟩ => quiet

theorem slots_resetRevents {s : State nWork} (inv : Slots s) (p : Slot) :
    Slots (resetRevents s p) := by
  have fields : ∀ p', ((resetRevents s p).fdses p').fd = (s.fdses p').fd ∧
      ((resetRevents s p).fdses p').events = (s.fdses p').events ∧
      (((resetRevents s p).fdses p').revents = 0 ∨
        ((resetRevents s p).fdses p').revents = (s.fdses p').revents) := by
    intro p'
    dsimp only [resetRevents, State.setSlot]
    rcases Classical.em (p' = p) with rfl | other
    · rw [Function.update_self]
      exact ⟨rfl, rfl, Or.inl rfl⟩
    · rw [Function.update_of_ne other]
      exact ⟨rfl, rfl, Or.inr rfl⟩
  refine inv.flags rfl rfl rfl rfl rfl (fun p' => (fields p').1) (fun p' => (fields p').2.1) ?_
  rintro q _ ⟨_, _, _, _, quiet⟩
  rcases (fields q.slot).2.2 with zero | same
  · rw [zero]
    decide
  · rwa [same]

theorem unasked {s : State nWork} {t : PollThread} {ready : Nat → UInt16} {i : Nat}
    (told : reportable s t ready i) (silent : (s.fdses (t, i)).events = 0) :
    ready i ≠ pollIn := by
  intro reported
  have asked := told.2.1
  rw [reported, silent] at asked
  revert asked
  decide

theorem slots_report {s : State nWork} (inv : Slots s) {t : PollThread} {ready : Nat → UInt16}
    (told : ∀ i < s.currIndexes t, reportable s t ready i) : Slots (report s t ready) := by
  have events : ∀ p, ((report s t ready).fdses p).events = (s.fdses p).events := by
    intro p
    dsimp only [report]
    split <;> rfl
  refine inv.flags rfl rfl rfl rfl rfl (report_fd s t ready) events ?_
  rintro q _ ⟨c, _, _, silent, quiet⟩
  dsimp only [report]
  split
  · rename_i here
    obtain ⟨row, inside⟩ := here
    obtain ⟨sock, id, i, conn⟩ := q
    dsimp only [Request.slot] at row inside silent ⊢
    subst row
    exact unasked (told i inside) silent
  · exact quiet

theorem slots_afterPoll {s : State nWork} (inv : Slots s) {t : PollThread}
    {ready : Nat → UInt16} (told : ∀ i < s.currIndexes t, reportable s t ready i) :
    Slots (afterPoll s t ready) := by
  have told := slots_report inv told
  unfold afterPoll
  dsimp only
  split
  · exact slots_setPc (slots_resetRevents told _) t .purging
  · split
    · exact slots_setPc told t .purging
    · exact slots_setPc told t (.scanning 0)

theorem live_fd {s : State nWork} (table : Table host s) {q : Request} (live : Live s q) :
    (s.fdses q.slot).fd ≠ -1 := by
  obtain ⟨c, opened, _⟩ := live
  have valid := (table.foreign _ _ opened).1
  omega

theorem live_elsewhere {s : State nWork} (table : Table host s) {p : Slot} (here : s.client p)
    (held : (s.fdses p).fd ≠ -1) {q : Request} (client : s.client q.slot) (other : q.slot ≠ p)
    (live : Live s q) :
    Live (handleFailedRead s p) q ∧
      ((handleFailedRead s p).fdses q.slot).fd = (s.fdses q.slot).fd := by
  obtain ⟨c, opened⟩ := table.holds p here held
  have fd := live_fd table live
  have away : (s.fdses q.slot).fd ≠ (s.fdses p).fd :=
    fun eq => other (table.apart _ _ client here fd eq)
  rw [handleFailedRead_open opened]
  have slot : (Function.update s.fdses p { s.fdses p with fd := -1, revents := 0 }) q.slot =
      s.fdses q.slot := Function.update_of_ne other _ _
  refine ⟨?_, congrArg PollFd.fd slot⟩
  unfold Live
  dsimp only [State.setSlot]
  rw [slot, Function.update_of_ne away]
  exact live

theorem gone_closing {s : State nWork} {p : Slot} {q : Request} (gone : Gone s q) :
    Gone (handleFailedRead s p) q := by
  obtain ⟨marked, c, member, conn⟩ := gone
  constructor
  · dsimp only [handleFailedRead, State.setSlot]
    rcases Classical.em (q.slot = p) with eq | other
    · rw [eq, Function.update_self]
    · rw [Function.update_of_ne other, ← marked]
      simp only [closeFd, subtract]
      split <;> rfl
  · refine ⟨c, ?_, conn⟩
    simp only [handleFailedRead, State.setSlot, closeFd, subtract]
    split
    · exact List.mem_append_left _ member
    · exact member

theorem gone_here {s : State nWork} {q : Request} (live : Live s q) :
    Gone (handleFailedRead s q.slot) q ∧
      (handleFailedRead s q.slot).sockets (s.fdses q.slot).fd = none := by
  obtain ⟨c, opened, conn, _⟩ := live
  rw [handleFailedRead_open opened]
  refine ⟨⟨?_, c, ?_, conn⟩, Function.update_self _ _ _⟩
  · dsimp only [State.setSlot]
    rw [Function.update_self]
  · exact List.mem_append_right _ (List.mem_singleton_self c)

theorem shut_stays {s : State nWork} {p : Slot} {sock : Int} (shut : s.sockets sock = none) :
    (handleFailedRead s p).sockets sock = none := by
  simp only [handleFailedRead, State.setSlot, closeFd, subtract]
  split
  · rcases Classical.em (sock = (s.fdses p).fd) with rfl | other
    · exact Function.update_self _ _ _
    · dsimp only
      rwa [Function.update_of_ne other]
  · exact shut

theorem closing_slot {s : State nWork} {p p' : Slot}
    (held : ((handleFailedRead s p).fdses p').fd ≠ -1) :
    p' ≠ p ∧ (handleFailedRead s p).fdses p' = s.fdses p' := by
  have other : p' ≠ p := by
    rintro rfl
    simp [handleFailedRead, State.setSlot] at held
  refine ⟨other, ?_⟩
  simp only [handleFailedRead, State.setSlot, closeFd, subtract]
  rw [Function.update_of_ne other]
  split <;> rfl

theorem closing_client (s : State nWork) (p p' : Slot) :
    (handleFailedRead s p).client p' ↔ s.client p' := by
  simp only [State.client, handleFailedRead, State.setSlot, closeFd, subtract]
  split <;> rfl

theorem closing_requests (s : State nWork) (p : Slot) :
    (handleFailedRead s p).toProcess = s.toProcess ∧
      (handleFailedRead s p).worker = s.worker := by
  simp only [handleFailedRead, State.setSlot, closeFd, subtract]
  split <;> exact ⟨rfl, rfl⟩

theorem slots_hangUp {s : State nWork} (table : Table host s) (inv : Slots s) {p : Slot}
    (here : s.client p) (held : (s.fdses p).fd ≠ -1)
    (free : ∀ w q gone, s.worker w = .rearming q gone → q.slot ≠ p) :
    Slots (handleFailedRead s p) := by
  obtain ⟨toProcess, worker⟩ := closing_requests s p
  apply inv.polled toProcess worker
  · intro q out
    exact (closing_client s p _).mpr (inv.client q out)
  · intro q _ gone
    exact gone_closing gone
  · intro q out live
    rcases Classical.em (q.slot = p) with rfl | other
    · obtain ⟨gone, shut⟩ := gone_here live
      exact Or.inr ⟨gone, shut, fun w closed rearming => free w q closed rearming rfl⟩
    · exact Or.inl (live_elsewhere table here held (inv.client q out) other live)
  · intro w q sock _ shut
    exact shut_stays shut
  · intro p' here' held' free'
    obtain ⟨_, same⟩ := closing_slot held'
    rw [same] at held' ⊢
    exact inv.armed p' ((closing_client s p p').mp here') held' free'

theorem slots_health {s : State nWork} (inv : Slots s) (health : Health) :
    Slots { s with health := health } :=
  inv.flags rfl rfl rfl rfl rfl (fun _ => rfl) (fun _ => rfl) fun _ _ ⟨_, _, _, _, quiet⟩ => quiet

theorem slots_store {s : State nWork} (table : Table host s) (inv : Slots s) {newsock : Int}
    {r : PollThread} (free : ¬ inUse host s newsock)
    (unlatched : ∀ w q sock, s.worker w = .handling q sock → newsock ≠ sock) :
    Slots (store s newsock r) := by
  have shut : s.sockets newsock = none := by
    by_contra opened
    exact free (Or.inl opened)
  have clients := store_client (table.room r).1 newsock
  have slot : ∀ p, p ≠ (r, s.currIndexes r) → (store s newsock r).fdses p = s.fdses p :=
    fun p other => Function.update_of_ne other _ _
  have socket : ∀ f, f ≠ newsock → (store s newsock r).sockets f = s.sockets f :=
    fun f other => Function.update_of_ne other _ _
  refine inv.polled rfl rfl ?_ ?_ ?_ ?_ ?_
  · intro q out
    exact (clients _).mpr (Or.inl (inv.client q out))
  · rintro q out ⟨marked, conn⟩
    refine ⟨?_, conn⟩
    rw [slot _ (client_ne_next (inv.client q out) r), marked]
  · rintro q out ⟨c, opened, conn, silent, quiet⟩
    have same := slot _ (client_ne_next (inv.client q out) r)
    have other : (s.fdses q.slot).fd ≠ newsock := by
      intro eq
      rw [eq, shut] at opened
      cases opened
    refine Or.inl ⟨⟨c, ?_, conn, ?_, ?_⟩, congrArg PollFd.fd same⟩
    · rw [same, socket _ other, opened]
    · rw [same, silent]
    · rwa [same]
  · intro w q sock handling none
    rw [socket sock (unlatched w q sock handling).symm, none]
  · intro p here held free'
    rcases (clients p).mp here with old | rfl
    · rw [slot p (client_ne_next old r)] at held ⊢
      exact inv.armed p old held free'
    · simp [store, State.setSlot]

theorem slots_accept {s : State nWork} (table : Table host s) (inv : Slots s) {newsock : Int}
    {r : PollThread} (free : ¬ inUse host s newsock)
    (unlatched : ¬ atCapacity host s → s.currIndexes 0 ≠ maxFds →
      ∀ w q sock, s.worker w = .handling q sock → newsock ≠ sock) :
    Slots (acceptConnection host s newsock r) := by
  unfold acceptConnection
  split
  · exact slots_health inv _
  · split
    · exact inv
    · rename_i below
      split
      · exact slots_health inv _
      · rename_i roomy
        split
        · exact slots_store table inv free (unlatched below roomy)
        · exact slots_health inv _

theorem processed_free {s : State nWork} (inv : Slots s) {p : Slot} (held : (s.fdses p).fd ≠ -1)
    (event : (s.fdses p).revents = pollIn) (q : Request) (out : s.outstanding q) :
    q.slot ≠ p := by
  rintro rfl
  rcases live_or_gone inv out with ⟨_, _, _, _, quiet⟩ | ⟨marked, _⟩
  · exact quiet event
  · exact held marked

theorem slots_process {s : State nWork} (table : Table host s) (inv : Slots s) {p : Slot}
    (here : s.client p) (held : (s.fdses p).fd ≠ -1) (event : (s.fdses p).revents = pollIn) :
    Slots (resetRevents (process s p) p) := by
  obtain ⟨c, opened⟩ := table.holds p here held
  have free := processed_free inv held event
  have slot_self : (resetRevents (process s p) p).fdses p =
      { s.fdses p with events := 0, revents := 0 } := by
    simp [resetRevents, process, State.setSlot]
  have slot : ∀ p', p' ≠ p → (resetRevents (process s p) p).fdses p' = s.fdses p' := by
    intro p' other
    simp [resetRevents, process, State.setSlot, Function.update_of_ne other]
  have live : ∀ q, s.outstanding q → Live s q → Live (resetRevents (process s p) p) q := by
    rintro q out ⟨c, opened, conn, silent, quiet⟩
    have same := slot _ (free q out)
    exact ⟨c, by rw [same]; exact opened, conn, by rw [same, silent], by rwa [same]⟩
  have gone : ∀ q, s.outstanding q → Gone s q → Gone (resetRevents (process s p) p) q := by
    rintro q out ⟨marked, conn⟩
    exact ⟨by rw [slot _ (free q out), marked], conn⟩
  have either : ∀ q, s.outstanding q → Live s q ∨ Gone s q →
      Live (resetRevents (process s p) p) q ∨ Gone (resetRevents (process s p) p) q :=
    fun q out known => known.imp (live q out) (gone q out)
  have new : (⟨(s.fdses p).fd, p.1, p.2, s.sockets (s.fdses p).fd⟩ : Request).slot = p := rfl
  refine ⟨?_, ?_, ?_, ?_, ?_, inv.apart, ?_, ?_⟩
  · intro q queued
    rcases List.mem_append.mp queued with old | last
    · exact either q (Or.inl old) (inv.queued q old)
    · obtain rfl := List.mem_singleton.mp last
      refine Or.inl ⟨c, ?_, opened, ?_, ?_⟩
      · rw [new, slot_self]
        exact opened
      · rw [new, slot_self]
      · rw [new, slot_self]
        exact (by decide : (0 : UInt16) ≠ pollIn)
  · intro w q sock handling
    have out : s.outstanding q := worker_outstanding (congrArg WorkerPc.request handling)
    rcases inv.handling w q sock handling with ⟨known, eq⟩ | ⟨known, none⟩
    · exact Or.inl ⟨live q out known, by rw [slot _ (free q out), eq]⟩
    · exact Or.inr ⟨gone q out known, none⟩
  · intro w q flag rearming
    have out : s.outstanding q := worker_outstanding (congrArg WorkerPc.request rearming)
    exact (inv.rearming w q flag rearming).imp (And.imp_right (live q out))
      (And.imp_right (gone q out))
  · rintro q (queued | held')
    · rcases List.mem_append.mp queued with old | last
      · exact inv.client q (Or.inl old)
      · obtain rfl := List.mem_singleton.mp last
        exact here
    · exact inv.client q (Or.inr held')
  · change ((s.toProcess ++ [_]).map Request.slot).Nodup
    rw [List.map_append, List.map_singleton, new, List.nodup_append_comm]
    refine List.nodup_cons.mpr ⟨?_, inv.nodup⟩
    intro member
    obtain ⟨q, queued, eq⟩ := List.mem_map.mp member
    exact free q (Or.inl queued) eq
  · intro w q q' held' queued
    rcases List.mem_append.mp queued with old | last
    · exact inv.disjoint w q q' held' old
    · obtain rfl := List.mem_singleton.mp last
      exact free q (worker_outstanding held')
  · intro p' here' held' free'
    have other : p' ≠ p := by
      rintro rfl
      exact free' _ (Or.inl (List.mem_append_right _ (List.mem_singleton_self _))) new
    rw [slot p' other] at held' ⊢
    refine inv.armed p' here' held' fun q out => free' q ?_
    exact out.imp (List.mem_append_left _) id

/-- A purge moves no slot in front of which, or at which, no slot is marked. -/
theorem purge_keeps {s : State nWork} (table : Table host s) {t : PollThread}
    (full : s.currIndexes t = maxFds) {p : Slot} (here : s.client p)
    (still : p.1 = t → ∀ j ≤ p.2, (s.fdses (t, j)).fd ≠ -1) :
    moved s t p = p ∧ (purgeSlots s t).client p ∧ (purgeSlots s t).fdses p = s.fdses p := by
  obtain ⟨u, i⟩ := p
  rcases Classical.em (u = t) with rfl | away
  · have alive := still rfl
    have unmoved : moved s u (u, i) = (u, i) := by
      have place : Compaction.rank dead (s.row u) i = i :=
        Compaction.rank_eq_self dead _ fun j lt => alive_of_live (alive j (Nat.le_of_lt lt))
      simp [moved, place]
    have target := purge_target table.placed full here (alive i (Nat.le_refl i))
    rw [unmoved] at target
    exact ⟨unmoved, target⟩
  · refine ⟨by simp [moved, away], ?_, by simp [purgeSlots, away]⟩
    simp only [State.client, purgeSlots, ne_eq, away, not_false_eq_true, Function.update_of_ne]
    exact here

theorem slots_purge {s : State nWork} (table : Table host s) (inv : Slots s) {t : PollThread}
    (full : s.currIndexes t = maxFds)
    (still : ∀ q, s.outstanding q → q.id = t → ∀ j ≤ q.pollFd, (s.fdses (t, j)).fd ≠ -1) :
    Slots (purgeSlots s t) := by
  have keeps := fun q out => purge_keeps table full (inv.client q out) (still q out)
  refine inv.polled rfl rfl ?_ ?_ ?_ ?_ ?_
  · exact fun q out => (keeps q out).2.1
  · rintro q out ⟨marked, conn⟩
    exact ⟨by rw [(keeps q out).2.2, marked], conn⟩
  · rintro q out ⟨c, opened, conn, silent, quiet⟩
    have same := (keeps q out).2.2
    refine Or.inl ⟨⟨c, ?_, conn, by rw [same, silent], by rwa [same]⟩, by rw [same]⟩
    rw [same]
    exact opened
  · exact fun w q sock _ none => none
  · intro p here held free
    obtain ⟨p', was, same, place⟩ := purge_origin table.placed full here
    rw [same] at held ⊢
    refine inv.armed p' was held fun q out eq => free q out ?_
    rw [place, ← eq, (keeps q out).1]

end Connections

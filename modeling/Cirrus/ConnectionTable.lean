import Cirrus.Connections

/-
What the arrays of slots say about the open sockets: every open client socket
has one slot, every slot in use that is not marked -1 holds one open socket,
and the slots a thread filled for itself stay as they are.
-/
namespace Connections
open Transition

variable {nWork : Nat} {host : Host}

inductive Move (host : Host) (s : State nWork) : Label nWork → State nWork → Prop where
  | poll {t ready} (polling : s.pollPc t = .polling)
      (told : ∀ i < s.currIndexes t, reportable s t ready i) :
      Move host s (.poll t ready) (afterPoll s t ready)
  | interrupted {t} (polling : s.pollPc t = .polling) :
      Move host s (.interrupted t) (s.setPc t .purging)
  | skip {t i newsock r} (here : s.pollPc t = .scanning i) (inside : i < s.currIndexes t)
      (gone : (s.fdses (t, i)).fd = -1) :
      Move host s (.scan t newsock r) (s.setPc t (.scanning (i + 1)))
  | quiet {t i newsock r} (here : s.pollPc t = .scanning i) (inside : i < s.currIndexes t)
      (live : (s.fdses (t, i)).fd ≠ -1) :
      Move host s (.scan t newsock r) ((resetRevents s (t, i)).setPc t (.scanning (i + 1)))
  | hangUp {t i newsock r} (here : s.pollPc t = .scanning i) (inside : i < s.currIndexes t)
      (live : (s.fdses (t, i)).fd ≠ -1)
      (hup : (s.fdses (t, i)).revents &&& pollHup ≠ 0) :
      Move host s (.scan t newsock r) ((handleFailedRead s (t, i)).setPc t (.scanning (i + 1)))
  | accept {i newsock r} (here : s.pollPc 0 = .scanning i) (inside : i < s.currIndexes 0)
      (free : ¬ inUse host s newsock) (listening : (s.fdses (0, i)).fd = host.serverSock)
      (event : (s.fdses (0, i)).revents = pollIn) :
      Move host s (.scan 0 newsock r)
        ((resetRevents (acceptConnection host s newsock r) (0, i)).setPc 0 (.scanning (i + 1)))
  | process {t i newsock r} (here : s.pollPc t = .scanning i) (inside : i < s.currIndexes t)
      (live : (s.fdses (t, i)).fd ≠ -1) (event : (s.fdses (t, i)).revents = pollIn)
      (other : ¬ (t = 0 ∧ (s.fdses (t, i)).fd = host.serverSock)) :
      Move host s (.scan t newsock r)
        ((resetRevents (process s (t, i)) (t, i)).setPc t (.scanning (i + 1)))
  | scanned {t newsock r} : Move host s (.scan t newsock r) (s.setPc t .purging)
  | roomy {t} : Move host s (.purge t) (s.setPc t .polling)
  | purge {t} (full : s.currIndexes t = maxFds) :
      Move host s (.purge t) ((purgeSlots s t).setPc t .polling)
  | take {w req rest} (free : s.worker w = .free) (front : s.toProcess = req :: rest) :
      Move host s (.take w)
        { s.setWorker w (.handling req (s.fdses req.slot).fd) with toProcess := rest }
  | serve {w req sock outcome} (handling : s.worker w = .handling req sock)
      (readable : s.sockets sock ≠ none ∨ outcome = .threw) :
      Move host s (.serve w outcome) (finish s w req outcome)
  | rearm {w req gone} (rearming : s.worker w = .rearming req gone) :
      Move host s (.rearm w) (rearmSlot s w req)

theorem reset_hangUp (s : State nWork) (p : Slot) :
    resetRevents (hangUp s p) p = handleFailedRead s p := by
  simp [resetRevents, hangUp, handleFailedRead, State.setSlot]

theorem move_of_scan {s : State nWork} {t r : PollThread} {i : Nat} {newsock : Int}
    (here : s.pollPc t = .scanning i) (inside : i < s.currIndexes t)
    (free : ¬ inUse host s newsock) :
    Move host s (.scan t newsock r)
      ((scanSlot host s (t, i) newsock r).setPc t (.scanning (i + 1))) := by
  unfold scanSlot
  dsimp only
  split
  · exact .skip here inside ‹_›
  · rename_i live
    split
    · split
      · rw [reset_hangUp]
        exact .hangUp here inside live ‹_›
      · exact .quiet here inside live
    · rename_i event
      have event : (s.fdses (t, i)).revents = pollIn := not_not.mp event
      split
      · rename_i listening
        obtain ⟨rfl, listening⟩ := listening
        exact .accept here inside free listening event
      · exact .process here inside live event ‹_›

theorem move_of_step {s t : State nWork} {l : Label nWork} (taken : step host s l = some t) :
    Move host s l t := by
  unfold step at taken
  split at taken
  · cases taken
  cases l with
  | poll p ready =>
    simp only [Option.ite_none_right_eq_some, Option.some.injEq] at taken
    obtain ⟨⟨polling, told⟩, rfl⟩ := taken
    exact .poll polling told
  | interrupted p =>
    simp only [Option.ite_none_right_eq_some, Option.some.injEq] at taken
    obtain ⟨polling, rfl⟩ := taken
    exact .interrupted polling
  | scan p newsock r =>
    cases here : s.pollPc p with
    | polling => simp [here] at taken
    | purging => simp [here] at taken
    | scanning i =>
      simp only [here, Option.ite_none_left_eq_some] at taken
      obtain ⟨free, taken⟩ := taken
      split at taken
      · cases taken
        exact move_of_scan here ‹_› free
      · cases taken
        exact .scanned
  | purge p =>
    simp only [Option.ite_none_right_eq_some, Option.some.injEq] at taken
    obtain ⟨_, rfl⟩ := taken
    split
    · exact .purge ‹_›
    · exact .roomy
  | take w =>
    simp only [Option.ite_none_right_eq_some, takeRequest] at taken
    obtain ⟨free, taken⟩ := taken
    cases front : s.toProcess with
    | nil => simp [front] at taken
    | cons req rest =>
      simp only [front, Option.some.injEq] at taken
      exact taken ▸ .take free front
  | serve w outcome =>
    cases handling : s.worker w with
    | free => simp [handling] at taken
    | rearming req gone => simp [handling] at taken
    | handling req sock =>
      simp only [handling, Option.ite_none_left_eq_some, Option.some.injEq] at taken
      obtain ⟨readable, rfl⟩ := taken
      refine .serve handling ?_
      rcases Classical.em (s.sockets sock = none) with shut | opened
      · exact Or.inr (by simpa [shut] using readable)
      · exact Or.inl opened
  | rearm w =>
    cases rearming : s.worker w with
    | free => simp [rearming] at taken
    | handling req sock => simp [rearming] at taken
    | rearming req gone =>
      simp only [rearming, Option.some.injEq] at taken
      exact taken ▸ .rearm rearming

def State.client (s : State nWork) (p : Slot) : Prop :=
  base p.1 ≤ p.2 ∧ p.2 < s.currIndexes p.1

/-- Where the open sockets are: every one has a slot in use, no two slots in use name one
descriptor, and the slots a thread filled for itself stay as they are. -/
structure Placed (host : Host) (s : State nWork) : Prop where
  room : ∀ t, base t ≤ s.currIndexes t ∧ s.currIndexes t ≤ maxFds
  own : ∀ p, p.2 < base p.1 → (s.fdses p).fd = ownFd host p
  quiet : ∀ p, p.2 < base p.1 → (s.fdses p).revents &&& pollHup = 0 ∧
    (p.2 = posit p.1 → (s.fdses p).revents = 0)
  apart : ∀ p p', s.client p → s.client p' → (s.fdses p).fd ≠ -1 →
    (s.fdses p).fd = (s.fdses p').fd → p = p'
  held : ∀ f c, s.sockets f = some c → ∃ p, s.client p ∧ (s.fdses p).fd = f
  foreign : ∀ f c, s.sockets f = some c → 0 ≤ f ∧ f ≠ host.serverSock ∧ ∀ t, f ≠ host.pipe t

theorem Placed.frame {s s' : State nWork} (placed : Placed host s) (fdses : s'.fdses = s.fdses)
    (currIndexes : s'.currIndexes = s.currIndexes) (sockets : s'.sockets = s.sockets) :
    Placed host s' := by
  cases s
  cases s'
  dsimp only at fdses currIndexes sockets
  subst fdses currIndexes sockets
  exact ⟨placed.room, placed.own, placed.quiet, placed.apart, placed.held, placed.foreign⟩

theorem ownFd_nonneg (host : Host) (p : Slot) : 0 ≤ ownFd host p := by
  unfold ownFd
  split
  · exact host.serverSock_nonneg
  · exact host.pipe_nonneg _

theorem posit_lt_base (t : PollThread) : posit t < base t := by
  unfold posit base
  split <;> decide

theorem base_le_max (t : PollThread) : base t ≤ maxFds := by
  unfold base maxFds
  split <;> decide

theorem start_client (p : Slot) : ¬ (start host nWork).client p := by
  rintro ⟨above, below⟩
  simp only [start] at below
  omega

theorem placed_start : Placed host (start host nWork) := by
  refine ⟨fun t => ⟨Nat.le_refl _, base_le_max t⟩, ?_, ?_, ?_, ?_, ?_⟩
  · intro p own
    simp [start, own]
  · intro p own
    simp [start, own]
  · exact fun p _ here => absurd here (start_client p)
  · intro f c opened
    simp [start] at opened
  · intro f c opened
    simp [start] at opened

theorem Placed.minus_one_shut {s : State nWork} (placed : Placed host s) : s.sockets (-1) = none := by
  cases opened : s.sockets (-1) with
  | none => rfl
  | some c => exact absurd (placed.foreign _ _ opened).1 (by decide)

theorem Placed.flags {s : State nWork} (placed : Placed host s) {fdses : Slot → PollFd}
    (same : ∀ p, (fdses p).fd = (s.fdses p).fd)
    (quiet : ∀ p, p.2 < base p.1 → (fdses p).revents &&& pollHup = 0 ∧
      (p.2 = posit p.1 → (fdses p).revents = 0)) :
    Placed host { s with fdses := fdses } := by
  refine ⟨placed.room, ?_, quiet, ?_, ?_, placed.foreign⟩
  · intro p own
    exact (same p).trans (placed.own p own)
  · intro p p' here here' live eq
    rw [same] at live eq
    rw [same] at eq
    exact placed.apart p p' here here' live eq
  · intro f c opened
    obtain ⟨p, here, eq⟩ := placed.held f c opened
    exact ⟨p, here, (same p).trans eq⟩

theorem setSlot_fd {s : State nWork} {p : Slot} {x : PollFd} (same : x.fd = (s.fdses p).fd)
    (p' : Slot) : ((s.setSlot p x).fdses p').fd = (s.fdses p').fd := by
  dsimp only [State.setSlot]
  rcases Classical.em (p' = p) with rfl | other
  · rw [Function.update_self, same]
  · rw [Function.update_of_ne other]

theorem setSlot_quiet {s : State nWork} (placed : Placed host s) {p : Slot} {x : PollFd}
    (revents : x.revents = (s.fdses p).revents ∨ x.revents = 0) (p' : Slot)
    (own : p'.2 < base p'.1) :
    ((s.setSlot p x).fdses p').revents &&& pollHup = 0 ∧
      (p'.2 = posit p'.1 → ((s.setSlot p x).fdses p').revents = 0) := by
  dsimp only [State.setSlot]
  rcases Classical.em (p' = p) with rfl | other
  · rw [Function.update_self]
    rcases revents with still | zero
    · rw [still]
      exact placed.quiet p' own
    · simp [zero]
  · rw [Function.update_of_ne other]
    exact placed.quiet p' own

theorem placed_setSlot {s : State nWork} (placed : Placed host s) {p : Slot} {x : PollFd}
    (same : x.fd = (s.fdses p).fd)
    (revents : x.revents = (s.fdses p).revents ∨ x.revents = 0) : Placed host (s.setSlot p x) :=
  placed.flags (setSlot_fd same) (setSlot_quiet placed revents)

theorem resetRevents_fd (s : State nWork) (p p' : Slot) :
    ((resetRevents s p).fdses p').fd = (s.fdses p').fd := by
  unfold resetRevents
  apply setSlot_fd
  rfl

theorem placed_resetRevents {s : State nWork} (placed : Placed host s) (p : Slot) :
    Placed host (resetRevents s p) :=
  placed_setSlot placed rfl (Or.inr rfl)

theorem report_fd (s : State nWork) (t : PollThread) (ready : Nat → UInt16) (p : Slot) :
    ((report s t ready).fdses p).fd = (s.fdses p).fd := by
  dsimp only [report]
  split <;> rfl

theorem report_quiet {s : State nWork} (placed : Placed host s) {t : PollThread}
    {ready : Nat → UInt16} (told : ∀ i < s.currIndexes t, reportable s t ready i) {p : Slot}
    (own : p.2 < base p.1) :
    ((report s t ready).fdses p).revents &&& pollHup = 0 ∧
      (p ≠ (t, posit t) ∨ ready (posit t) ≠ pollIn → p.2 = posit p.1 →
        ((report s t ready).fdses p).revents = 0) := by
  have apart : pollIn &&& pollHup = 0 := by decide
  dsimp only [report]
  split
  · rename_i here
    obtain ⟨rfl, inside⟩ := here
    rcases (told p.2 inside).2.2 own with zero | ready_in
    · simp [zero]
    · refine ⟨by simpa [ready_in] using apart, ?_⟩
      rintro (other | asleep) pipe
      · exact absurd (show p = (p.1, posit p.1) from Prod.ext rfl pipe) other
      · rw [← pipe] at asleep
        exact absurd ready_in asleep
  · have still := placed.quiet p own
    exact ⟨still.1, fun _ => still.2⟩

theorem report_reset_quiet {s : State nWork} (placed : Placed host s) {t : PollThread}
    {ready : Nat → UInt16} (told : ∀ i < s.currIndexes t, reportable s t ready i) (p : Slot)
    (own : p.2 < base p.1) :
    ((resetRevents (report s t ready) (t, posit t)).fdses p).revents &&& pollHup = 0 ∧
      (p.2 = posit p.1 →
        ((resetRevents (report s t ready) (t, posit t)).fdses p).revents = 0) := by
  dsimp only [resetRevents, State.setSlot]
  rcases Classical.em (p = (t, posit t)) with rfl | other
  · rw [Function.update_self]
    simp
  · rw [Function.update_of_ne other]
    obtain ⟨hup, pipe⟩ := report_quiet placed told own
    exact ⟨hup, pipe (Or.inl other)⟩

theorem report_reset_fd (s : State nWork) (t : PollThread) (ready : Nat → UInt16) (p : Slot) :
    ((resetRevents (report s t ready) (t, posit t)).fdses p).fd = (s.fdses p).fd :=
  (resetRevents_fd _ _ p).trans (report_fd s t ready p)

theorem placed_afterPoll {s : State nWork} (placed : Placed host s) {t : PollThread}
    {ready : Nat → UInt16} (told : ∀ i < s.currIndexes t, reportable s t ready i) :
    Placed host (afterPoll s t ready) := by
  have pipe : posit t < s.currIndexes t := Nat.lt_of_lt_of_le (posit_lt_base t) (placed.room t).1
  have told_pipe : ((report s t ready).fdses (t, posit t)).revents = ready (posit t) := by
    simp [report, pipe]
  unfold afterPoll
  dsimp only
  split
  · have after : Placed host (resetRevents (report s t ready) (t, posit t)) :=
      placed.flags (report_reset_fd s t ready) (report_reset_quiet placed told)
    exact after.frame rfl rfl rfl
  · rename_i asleep
    rw [told_pipe] at asleep
    have after : Placed host (report s t ready) := by
      apply placed.flags (report_fd s t ready)
      intro p own
      obtain ⟨hup, pipe⟩ := report_quiet placed told own
      exact ⟨hup, pipe (Or.inr asleep)⟩
    split
    · exact after.frame rfl rfl rfl
    · exact after.frame rfl rfl rfl

theorem handleFailedRead_sockets (s : State nWork) (p : Slot) :
    (handleFailedRead s p).sockets = Function.update s.sockets (s.fdses p).fd none := by
  simp only [handleFailedRead, closeFd, subtract, State.setSlot]
  split
  · rfl
  · rename_i shut
    rw [← shut, Function.update_eq_self]

theorem handleFailedRead_fdses (s : State nWork) (p : Slot) :
    (handleFailedRead s p).fdses =
      Function.update s.fdses p { s.fdses p with fd := -1, revents := 0 } := by
  simp only [handleFailedRead, closeFd, subtract, State.setSlot]
  split <;> rfl

theorem handleFailedRead_frame (s : State nWork) (p : Slot) :
    (handleFailedRead s p).toProcess = s.toProcess ∧ (handleFailedRead s p).worker = s.worker ∧
      (handleFailedRead s p).health = s.health ∧
      (handleFailedRead s p).currIndexes = s.currIndexes := by
  simp only [handleFailedRead, closeFd, subtract, State.setSlot]
  split
  · exact ⟨rfl, rfl, rfl, rfl⟩
  · exact ⟨rfl, rfl, rfl, rfl⟩

theorem update_none_some {sockets : Int → Option Nat} {f f' : Int} {c : Nat}
    (still : Function.update sockets f none f' = some c) : f' ≠ f ∧ sockets f' = some c := by
  rcases Classical.em (f' = f) with rfl | other
  · rw [Function.update_self] at still
    cases still
  · rw [Function.update_of_ne other] at still
    exact ⟨other, still⟩

/-- The slot need not be in use, nor its descriptor open. -/
theorem placed_handleFailedRead {s : State nWork} (placed : Placed host s) {p : Slot}
    (above : base p.1 ≤ p.2) : Placed host (handleFailedRead s p) := by
  have slots := handleFailedRead_fdses s p
  have sizes := (handleFailedRead_frame s p).2.2.2
  have clients : ∀ p', (handleFailedRead s p).client p' ↔ s.client p' := by
    intro p'
    simp only [State.client, sizes]
  have slot_self : ((handleFailedRead s p).fdses p).fd = -1 := by rw [slots, Function.update_self]
  have slot_other : ∀ p', p' ≠ p → (handleFailedRead s p).fdses p' = s.fdses p' := by
    intro p' other
    rw [slots, Function.update_of_ne other]
  have own_other : ∀ p', p'.2 < base p'.1 → p' ≠ p := by
    rintro p' own rfl
    exact Nat.not_lt_of_le above own
  have shut : ∀ f c, (handleFailedRead s p).sockets f = some c →
      f ≠ (s.fdses p).fd ∧ s.sockets f = some c := by
    intro f c still
    rw [handleFailedRead_sockets] at still
    exact update_none_some still
  refine ⟨by rw [sizes]; exact placed.room, ?_, ?_, ?_, ?_, ?_⟩
  · intro p' own
    rw [slot_other p' (own_other p' own)]
    exact placed.own p' own
  · intro p' own
    rw [slot_other p' (own_other p' own)]
    exact placed.quiet p' own
  · intro p' p'' here' here'' live' eq
    rcases Classical.em (p' = p) with rfl | other'
    · exact absurd slot_self live'
    · rcases Classical.em (p'' = p) with rfl | other''
      · exact absurd (eq.trans slot_self) live'
      · rw [slot_other p' other'] at live' eq
        rw [slot_other p'' other''] at eq
        exact placed.apart p' p'' ((clients p').mp here') ((clients p'').mp here'') live' eq
  · intro f c still
    obtain ⟨away, was⟩ := shut f c still
    obtain ⟨p', here', eq⟩ := placed.held f c was
    refine ⟨p', (clients p').mpr here', ?_⟩
    rw [slot_other]
    · exact eq
    · rintro rfl
      exact away eq.symm
  · intro f c still
    exact placed.foreign f c (shut f c still).2

theorem client_ne_next {s : State nWork} {p : Slot} (here : s.client p) (r : PollThread) :
    p ≠ (r, s.currIndexes r) := by
  rintro rfl
  exact Nat.lt_irrefl _ here.2

theorem store_client {s : State nWork} {r : PollThread} (above : base r ≤ s.currIndexes r)
    (newsock : Int) (p : Slot) :
    (store s newsock r).client p ↔ s.client p ∨ p = (r, s.currIndexes r) := by
  obtain ⟨t, i⟩ := p
  unfold State.client
  dsimp only [store]
  rcases Classical.em (t = r) with rfl | away
  · rw [Function.update_self, Prod.mk.injEq, eq_self, true_and]
    omega
  · rw [Function.update_of_ne away, Prod.mk.injEq]
    simp [away]

theorem placed_store {s : State nWork} (placed : Placed host s) {newsock : Int} {r : PollThread}
    (free : ¬ inUse host s newsock) (valid : 0 ≤ newsock) (room : s.currIndexes r < maxFds)
    (fresh : ∀ p, s.client p → (s.fdses p).fd ≠ newsock) : Placed host (store s newsock r) := by
  unfold inUse at free
  push Not at free
  have foreign := free.2
  have next : Function.update s.currIndexes r (s.currIndexes r + 1) r = s.currIndexes r + 1 :=
    Function.update_self _ _ _
  have clients := store_client (placed.room r).1 newsock
  have grown : ∀ p, (store s newsock r).client p → p ≠ (r, s.currIndexes r) → s.client p :=
    fun p here other => ((clients p).mp here).resolve_right other
  have slot_other : ∀ p, p ≠ (r, s.currIndexes r) → (store s newsock r).fdses p = s.fdses p :=
    fun p other => Function.update_of_ne other _ _
  have slot_self : ((store s newsock r).fdses (r, s.currIndexes r)).fd = newsock := by
    simp [store, State.setSlot]
  have socket_other : ∀ f, f ≠ newsock → (store s newsock r).sockets f = s.sockets f :=
    fun f other => Function.update_of_ne other _ _
  have own_other : ∀ p, p.2 < base p.1 → p ≠ (r, s.currIndexes r) := by
    rintro p own rfl
    have := (placed.room r).1
    dsimp only at own
    omega
  refine ⟨?_, ?_, ?_, ?_, ?_, ?_⟩
  · intro t
    have was := placed.room t
    dsimp only [store]
    rcases Classical.em (t = r) with rfl | away
    · rw [next]
      omega
    · rwa [Function.update_of_ne away]
  · intro p own
    rw [slot_other p (own_other p own)]
    exact placed.own p own
  · intro p own
    rw [slot_other p (own_other p own)]
    exact placed.quiet p own
  · intro p p' here here' live eq
    rcases Classical.em (p = (r, s.currIndexes r)) with rfl | other
    · rcases Classical.em (p' = (r, s.currIndexes r)) with rfl | other'
      · rfl
      · rw [slot_self, slot_other p' other'] at eq
        exact absurd eq.symm (fresh p' (grown p' here' other'))
    · have was := grown p here other
      rw [slot_other p other] at live eq
      rcases Classical.em (p' = (r, s.currIndexes r)) with rfl | other'
      · rw [slot_self] at eq
        exact absurd eq (fresh p was)
      · rw [slot_other p' other'] at eq
        exact placed.apart p p' was (grown p' here' other') live eq
  · intro f c opened
    rcases Classical.em (f = newsock) with rfl | other
    · refine ⟨(r, s.currIndexes r), ⟨(placed.room r).1, ?_⟩, slot_self⟩
      change s.currIndexes r < Function.update s.currIndexes r (s.currIndexes r + 1) r
      omega
    · rw [socket_other f other] at opened
      obtain ⟨p, here, eq⟩ := placed.held f c opened
      exact ⟨p, (clients p).mpr (Or.inl here), by rw [slot_other p (client_ne_next here r), eq]⟩
  · intro f c opened
    rcases Classical.em (f = newsock) with rfl | other
    · exact ⟨valid, foreign⟩
    · rw [socket_other f other] at opened
      exact placed.foreign f c opened

/- Where the purge of thread `t` moves a slot. -/
def moved (s : State nWork) (t : PollThread) (p : Slot) : Slot :=
  if p.1 = t then (t, Compaction.rank dead (s.row t) p.2) else p

theorem own_alive {s : State nWork} (placed : Placed host s) {t : PollThread} {i : Nat}
    (own : i < base t) : dead (s.row t i) = false := by
  have valid := ownFd_nonneg host (t, i)
  have held := placed.own (t, i) own
  apply decide_eq_false
  change (s.fdses (t, i)).fd ≠ -1
  omega

theorem alive_of_live {x : PollFd} (live : x.fd ≠ -1) : dead x = false := by
  simpa [dead] using live

theorem purge_target {s : State nWork} (placed : Placed host s) {t : PollThread}
    (full : s.currIndexes t = maxFds) {p : Slot} (here : s.client p) (live : (s.fdses p).fd ≠ -1) :
    (purgeSlots s t).client (moved s t p) ∧ (purgeSlots s t).fdses (moved s t p) = s.fdses p := by
  obtain ⟨u, i⟩ := p
  rcases Classical.em (u = t) with rfl | away
  · obtain ⟨above, below⟩ := here
    dsimp only at above below
    rw [full] at below
    have alive := alive_of_live live
    have first : Compaction.rank dead (s.row u) (base u) = base u :=
      Compaction.rank_eq_self dead _ fun j lt => own_alive placed lt
    have upward := Compaction.rank_mono dead (s.row u) above
    have downward := Compaction.rank_lt dead (s.row u) alive below
    have total := Compaction.removed_add_rank dead (s.row u) maxFds
    simp only [moved, purgeSlots, State.client, if_true, Function.update_self, full]
    refine ⟨⟨by omega, by omega⟩, Compaction.removeIf_rank dead (s.row u) below alive⟩
  · simp only [moved, purgeSlots, State.client, away, if_false, ne_eq, not_false_eq_true,
      Function.update_of_ne]
    exact ⟨here, trivial⟩

theorem purge_origin {s : State nWork} (placed : Placed host s) {t : PollThread}
    (full : s.currIndexes t = maxFds) {p : Slot} (here : (purgeSlots s t).client p) :
    ∃ q, s.client q ∧ (purgeSlots s t).fdses p = s.fdses q ∧ p = moved s t q := by
  obtain ⟨u, j⟩ := p
  rcases Classical.em (u = t) with rfl | away
  · obtain ⟨above, below⟩ := here
    have total := Compaction.removed_add_rank dead (s.row u) maxFds
    simp only [purgeSlots, Function.update_self, full] at above below
    obtain ⟨i, inside, alive, place⟩ :=
      Compaction.exists_of_lt_rank dead (s.row u)
        (show j < Compaction.rank dead (s.row u) maxFds by omega)
    have client : base u ≤ i := by
      rcases Nat.lt_or_ge i (base u) with own | done
      · have unmoved : Compaction.rank dead (s.row u) i = i :=
          Compaction.rank_eq_self dead _ fun k lt => own_alive placed (Nat.lt_trans lt own)
        omega
      · exact done
    refine ⟨(u, i), ⟨client, by dsimp only; omega⟩, ?_, by simp [moved, place]⟩
    have held := Compaction.removeIf_rank dead (s.row u) inside alive
    rw [place] at held
    simpa [purgeSlots, State.row] using held
  · simp only [purgeSlots, State.client, ne_eq, away, not_false_eq_true, Function.update_of_ne] at here
    exact ⟨(u, j), here, by simp [purgeSlots, away], by simp [moved, away]⟩

theorem purge_own {s : State nWork} (placed : Placed host s) (t : PollThread) {p : Slot}
    (own : p.2 < base p.1) : (purgeSlots s t).fdses p = s.fdses p := by
  obtain ⟨u, i⟩ := p
  dsimp only at own
  rcases Classical.em (u = t) with rfl | away
  · have unmoved : Compaction.rank dead (s.row u) i = i :=
      Compaction.rank_eq_self dead _ fun k lt => own_alive placed (Nat.lt_trans lt own)
    have held := Compaction.removeIf_rank dead (s.row u)
      (Nat.lt_of_lt_of_le own (base_le_max u)) (own_alive placed own)
    rw [unmoved] at held
    simpa [purgeSlots, State.row] using held
  · simp [purgeSlots, away]

theorem placed_purge {s : State nWork} (placed : Placed host s) {t : PollThread}
    (full : s.currIndexes t = maxFds) : Placed host (purgeSlots s t) := by
  refine ⟨?_, ?_, ?_, ?_, ?_, placed.foreign⟩
  · intro u
    have was := placed.room u
    simp only [purgeSlots]
    rcases Classical.em (u = t) with rfl | away
    · have first : Compaction.rank dead (s.row u) (base u) = base u :=
        Compaction.rank_eq_self dead _ fun j lt => own_alive placed lt
      have upward := Compaction.rank_mono dead (s.row u)
        (base_le_max u)
      have total := Compaction.removed_add_rank dead (s.row u) maxFds
      rw [Function.update_self, full]
      omega
    · rwa [Function.update_of_ne away]
  · intro p own
    rw [purge_own placed t own]
    exact placed.own p own
  · intro p own
    rw [purge_own placed t own]
    exact placed.quiet p own
  · intro p p' here here' live eq
    obtain ⟨q, was, same, place⟩ := purge_origin placed full here
    obtain ⟨q', was', same', place'⟩ := purge_origin placed full here'
    rw [same] at live eq
    rw [same'] at eq
    rw [place, place', placed.apart q q' was was' live eq]
  · intro f c opened
    obtain ⟨q, was, eq⟩ := placed.held f c opened
    have valid := (placed.foreign f c opened).1
    obtain ⟨here, same⟩ := purge_target placed full was (by omega)
    exact ⟨moved s t q, here, by rw [same, eq]⟩

structure Table (host : Host) (s : State nWork) : Prop where
  room : ∀ t, base t ≤ s.currIndexes t ∧ s.currIndexes t ≤ maxFds
  own : ∀ p, p.2 < base p.1 → (s.fdses p).fd = ownFd host p
  quiet : ∀ p, p.2 < base p.1 → (s.fdses p).revents &&& pollHup = 0 ∧
    (p.2 = posit p.1 → (s.fdses p).revents = 0)
  holds : ∀ p, s.client p → (s.fdses p).fd ≠ -1 → ∃ c, s.sockets (s.fdses p).fd = some c
  apart : ∀ p p', s.client p → s.client p' → (s.fdses p).fd ≠ -1 →
    (s.fdses p).fd = (s.fdses p').fd → p = p'
  held : ∀ f c, s.sockets f = some c → ∃ p, s.client p ∧ (s.fdses p).fd = f
  foreign : ∀ f c, s.sockets f = some c → 0 ≤ f ∧ f ≠ host.serverSock ∧ ∀ t, f ≠ host.pipe t
  single : ∀ f f' c, s.sockets f = some c → s.sockets f' = some c → f = f'
  current : ∀ c, (∃ f, s.sockets f = some c) ↔ c < s.accepted ∧ c ∉ s.closed
  known : ∀ c ∈ s.closed, c < s.accepted

theorem processed_client {s : State nWork} (placed : Placed host s) {t : PollThread} {i : Nat}
    (inside : i < s.currIndexes t) (event : (s.fdses (t, i)).revents = pollIn)
    (other : ¬ (t = 0 ∧ (s.fdses (t, i)).fd = host.serverSock)) : s.client (t, i) := by
  refine ⟨?_, inside⟩
  by_contra below
  have own : i < base t := Nat.lt_of_not_le below
  have pipe : i ≠ posit t := by
    intro eq
    rw [(placed.quiet (t, i) own).2 eq] at event
    revert event
    decide
  have held := placed.own (t, i) own
  unfold base at own
  unfold posit at pipe
  split at own
  · rename_i first
    rw [if_pos first] at pipe
    obtain rfl : i = 0 := by omega
    subst first
    exact other ⟨rfl, held⟩
  · rename_i later
    rw [if_neg later] at pipe
    omega

theorem Table.placed {s : State nWork} (inv : Table host s) : Placed host s :=
  ⟨inv.room, inv.own, inv.quiet, inv.apart, inv.held, inv.foreign⟩

theorem Placed.table {s : State nWork} (placed : Placed host s)
    (holds : ∀ p, s.client p → (s.fdses p).fd ≠ -1 → ∃ c, s.sockets (s.fdses p).fd = some c)
    (single : ∀ f f' c, s.sockets f = some c → s.sockets f' = some c → f = f')
    (current : ∀ c, (∃ f, s.sockets f = some c) ↔ c < s.accepted ∧ c ∉ s.closed)
    (known : ∀ c ∈ s.closed, c < s.accepted) : Table host s :=
  ⟨placed.room, placed.own, placed.quiet, holds, placed.apart, placed.held, placed.foreign, single,
    current, known⟩

theorem Table.frame {s s' : State nWork} (inv : Table host s) (fdses : s'.fdses = s.fdses)
    (currIndexes : s'.currIndexes = s.currIndexes) (sockets : s'.sockets = s.sockets)
    (accepted : s'.accepted = s.accepted) (closed : s'.closed = s.closed) : Table host s' := by
  cases s
  cases s'
  dsimp only at fdses currIndexes sockets accepted closed
  subst fdses currIndexes sockets accepted closed
  exact ⟨inv.room, inv.own, inv.quiet, inv.holds, inv.apart, inv.held, inv.foreign, inv.single,
    inv.current, inv.known⟩

theorem table_start : Table host (start host nWork) := by
  refine placed_start.table ?_ ?_ ?_ ?_
  · exact fun p here => absurd here (start_client p)
  · intro f f' c opened
    simp [start] at opened
  · intro c
    simp [start]
  · intro c gone
    simp [start] at gone

theorem minus_one_shut {s : State nWork} (inv : Table host s) : s.sockets (-1) = none :=
  inv.placed.minus_one_shut

theorem Table.flags {s : State nWork} (inv : Table host s) {fdses : Slot → PollFd}
    (same : ∀ p, (fdses p).fd = (s.fdses p).fd)
    (quiet : ∀ p, p.2 < base p.1 → (fdses p).revents &&& pollHup = 0 ∧
      (p.2 = posit p.1 → (fdses p).revents = 0)) :
    Table host { s with fdses := fdses } := by
  refine (inv.placed.flags same quiet).table ?_ inv.single inv.current inv.known
  intro p here live
  rw [same] at live ⊢
  exact inv.holds p here live

theorem table_setSlot {s : State nWork} (inv : Table host s) {p : Slot} {x : PollFd}
    (same : x.fd = (s.fdses p).fd)
    (revents : x.revents = (s.fdses p).revents ∨ x.revents = 0) : Table host (s.setSlot p x) :=
  inv.flags (setSlot_fd same) (setSlot_quiet inv.placed revents)

theorem table_report {s : State nWork} (inv : Table host s) {t : PollThread}
    {ready : Nat → UInt16} (told : ∀ i < s.currIndexes t, reportable s t ready i)
    (asleep : ready (posit t) ≠ pollIn) : Table host (report s t ready) := by
  apply inv.flags (report_fd s t ready)
  intro p own
  obtain ⟨hup, pipe⟩ := report_quiet inv.placed told own
  exact ⟨hup, pipe (Or.inr asleep)⟩

theorem table_report_reset {s : State nWork} (inv : Table host s) {t : PollThread}
    {ready : Nat → UInt16} (told : ∀ i < s.currIndexes t, reportable s t ready i) :
    Table host (resetRevents (report s t ready) (t, posit t)) :=
  inv.flags (report_reset_fd s t ready) (report_reset_quiet inv.placed told)

theorem handleFailedRead_open {s : State nWork} {p : Slot} {c : Nat}
    (opened : s.sockets (s.fdses p).fd = some c) :
    handleFailedRead s p =
      { s.setSlot p { s.fdses p with fd := -1, revents := 0 } with
        sockets := Function.update s.sockets (s.fdses p).fd none
        closed := s.closed ++ [c]
        numConnections := s.numConnections - 1
        subtracted := s.subtracted ++ [some c] } := by
  simp [handleFailedRead, closeFd, subtract, State.setSlot, opened]

theorem table_handleFailedRead {s : State nWork} (inv : Table host s) {p : Slot}
    (here : s.client p) (live : (s.fdses p).fd ≠ -1) : Table host (handleFailedRead s p) := by
  obtain ⟨c, opened⟩ := inv.holds p here live
  have placed := placed_handleFailedRead inv.placed here.1
  rw [handleFailedRead_open opened] at placed ⊢
  refine placed.table ?_ ?_ ?_ ?_
  · intro p' here' live'
    dsimp only [State.setSlot] at live' ⊢
    rcases Classical.em (p' = p) with rfl | other
    · rw [Function.update_self] at live'
      exact absurd rfl live'
    · rw [Function.update_of_ne other] at live' ⊢
      rw [Function.update_of_ne fun eq => other (inv.apart p' p here' here live' eq)]
      exact inv.holds p' here' live'
  · intro f f' c' still still'
    exact inv.single f f' c' (update_none_some still).2 (update_none_some still').2
  · intro c'
    have was := inv.current c'
    dsimp only [State.setSlot]
    rw [List.mem_append, List.mem_singleton, not_or, ← and_assoc, ← was]
    constructor
    · rintro ⟨f, still⟩
      obtain ⟨away, opened'⟩ := update_none_some still
      refine ⟨⟨f, opened'⟩, ?_⟩
      rintro rfl
      exact away (inv.single _ _ _ opened' opened)
    · rintro ⟨⟨f, opened'⟩, other⟩
      refine ⟨f, ?_⟩
      rw [Function.update_of_ne]
      · exact opened'
      · rintro rfl
        exact other (Option.some.inj (opened'.symm.trans opened))
  · intro c' member
    rcases List.mem_append.mp member with old | new
    · exact inv.known c' old
    · rw [List.mem_singleton.mp new]
      exact ((inv.current c).mp ⟨_, opened⟩).1

theorem Table.fresh {s : State nWork} (inv : Table host s) {newsock : Int}
    (free : ¬ inUse host s newsock) (valid : 0 ≤ newsock) (p : Slot) (here : s.client p) :
    (s.fdses p).fd ≠ newsock := by
  intro eq
  obtain ⟨c, opened⟩ := inv.holds p here (by omega)
  rw [eq] at opened
  exact free (Or.inl (by simp [opened]))

theorem table_store {s : State nWork} (inv : Table host s) {newsock : Int} {r : PollThread}
    (free : ¬ inUse host s newsock) (valid : 0 ≤ newsock) (room : s.currIndexes r < maxFds) :
    Table host (store s newsock r) := by
  have shut : s.sockets newsock = none := by
    unfold inUse at free
    push Not at free
    exact free.1
  have fresh := inv.fresh free valid
  have clients := store_client (inv.room r).1 newsock
  have slot_other : ∀ p, p ≠ (r, s.currIndexes r) → (store s newsock r).fdses p = s.fdses p :=
    fun p other => Function.update_of_ne other _ _
  have slot_self : ((store s newsock r).fdses (r, s.currIndexes r)).fd = newsock := by
    simp [store, State.setSlot]
  have socket_self : (store s newsock r).sockets newsock = some s.accepted :=
    Function.update_self _ _ _
  have socket_other : ∀ f, f ≠ newsock → (store s newsock r).sockets f = s.sockets f :=
    fun f other => Function.update_of_ne other _ _
  refine (placed_store inv.placed free valid room fresh).table ?_ ?_ ?_ ?_
  · intro p here live
    rcases Classical.em (p = (r, s.currIndexes r)) with rfl | other
    · rw [slot_self]
      exact ⟨_, socket_self⟩
    · have was := ((clients p).mp here).resolve_right other
      rw [slot_other p other] at live ⊢
      rw [socket_other _ (fresh p was)]
      exact inv.holds p was live
  · intro f f' c opened opened'
    have older : ∀ f, f ≠ newsock → (store s newsock r).sockets f = some s.accepted → False := by
      intro f other opened
      rw [socket_other f other] at opened
      exact Nat.lt_irrefl _ ((inv.current _).mp ⟨f, opened⟩).1
    rcases Classical.em (f = newsock) with rfl | other
    · rcases Classical.em (f' = f) with rfl | other'
      · rfl
      · rw [socket_self] at opened
        cases opened
        exact (older f' other' opened').elim
    · rcases Classical.em (f' = newsock) with rfl | other'
      · rw [socket_self] at opened'
        cases opened'
        exact (older f other opened).elim
      · rw [socket_other _ other] at opened
        rw [socket_other _ other'] at opened'
        exact inv.single f f' c opened opened'
  · intro c
    have was := inv.current c
    change _ ↔ c < s.accepted + 1 ∧ c ∉ s.closed
    constructor
    · rintro ⟨f, opened⟩
      rcases Classical.em (f = newsock) with rfl | other
      · rw [socket_self] at opened
        cases opened
        exact ⟨Nat.lt_succ_self _, fun gone => Nat.lt_irrefl _ (inv.known _ gone)⟩
      · rw [socket_other f other] at opened
        have := was.mp ⟨f, opened⟩
        exact ⟨Nat.lt_succ_of_lt this.1, this.2⟩
    · rintro ⟨below, current⟩
      rcases Nat.lt_or_eq_of_le (Nat.le_of_lt_succ below) with lt | rfl
      · obtain ⟨f, opened⟩ := was.mpr ⟨lt, current⟩
        refine ⟨f, ?_⟩
        rw [socket_other]
        · exact opened
        · rintro rfl
          rw [shut] at opened
          cases opened
      · exact ⟨newsock, socket_self⟩
  · intro c gone
    exact Nat.lt_succ_of_lt (inv.known c gone)

theorem table_purge {s : State nWork} (inv : Table host s) {t : PollThread}
    (full : s.currIndexes t = maxFds) : Table host (purgeSlots s t) := by
  refine (placed_purge inv.placed full).table ?_ inv.single inv.current inv.known
  intro p here live
  obtain ⟨q, was, same, _⟩ := purge_origin inv.placed full here
  rw [same] at live ⊢
  exact inv.holds q was live

end Connections

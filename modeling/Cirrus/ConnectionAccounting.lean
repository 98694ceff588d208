import Cirrus.ConnectionRuns
import Mathlib.Data.Finset.Card
import Mathlib.Data.Finset.Prod

/-
The accounting of `num_connections`. The counter is incremented where a socket
is stored and decremented in the POLLHUP branch and in `handle_failed_read`;
it is exact as long as each of these closes a socket of the table.
-/
namespace Connections
open Transition

variable {nWork : Nat} {host : Host}

attribute [local instance] threads_neZero

def openConnections (s : State nWork) : Finset Nat :=
  Finset.range s.accepted \ s.closed.toFinset

structure Counted (host : Host) (s : State nWork) : Prop where
  once : s.closed.Nodup
  paired : s.subtracted = s.closed.map some
  exact : s.numConnections.toNat + s.closed.length = s.accepted
  bounded : s.numConnections.toNat ≤ 2 * host.nworkers.toNat + 1

theorem Counted.frame {s s' : State nWork} (counted : Counted host s)
    (closed : s'.closed = s.closed) (subtracted : s'.subtracted = s.subtracted)
    (numConnections : s'.numConnections = s.numConnections)
    (accepted : s'.accepted = s.accepted) : Counted host s' := by
  cases s
  cases s'
  dsimp only at closed subtracted numConnections accepted
  subst closed subtracted numConnections accepted
  exact ⟨counted.once, counted.paired, counted.exact, counted.bounded⟩

theorem card_openConnections {s : State nWork} (inv : Table host s) (once : s.closed.Nodup) :
    (openConnections s).card + s.closed.length = s.accepted := by
  have subset : s.closed.toFinset ⊆ Finset.range s.accepted := by
    intro c gone
    exact Finset.mem_range.mpr (inv.known c (List.mem_toFinset.mp gone))
  have count := Finset.card_sdiff_add_card_eq_card subset
  rwa [Finset.card_range, List.toFinset_card_of_nodup once] at count

/- Every open connection has a slot of its own in the three arrays. -/
theorem openConnections_few {s : State nWork} (inv : Table host s) :
    (openConnections s).card ≤ 3 * maxFds := by
  have slots : openConnections s ⊆
      ((Finset.univ : Finset PollThread) ×ˢ Finset.range maxFds).image
        fun p => (s.sockets (s.fdses p).fd).getD 0 := by
    intro c member
    simp only [openConnections, Finset.mem_sdiff, Finset.mem_range, List.mem_toFinset] at member
    obtain ⟨f, opened⟩ := (inv.current c).mpr member
    obtain ⟨p, here, eq⟩ := inv.held f c opened
    have room := (inv.room p.1).2
    refine Finset.mem_image.mpr ⟨p, ?_, by rw [eq, opened, Option.getD_some]⟩
    rw [Finset.mem_product, Finset.mem_range]
    exact ⟨Finset.mem_univ _, Nat.lt_of_lt_of_le here.2 room⟩
  have bound := Nat.le_trans (Finset.card_le_card slots) Finset.card_image_le
  have threads : (Finset.univ : Finset PollThread).card = 3 := rfl
  rwa [Finset.card_product, threads, Finset.card_range] at bound

theorem counted_start : Counted host (start host nWork) :=
  ⟨List.nodup_nil, rfl, rfl, Nat.zero_le _⟩

theorem counted_handleFailedRead {s : State nWork} (inv : Table host s) (counted : Counted host s)
    {p : Slot} (here : s.client p) (live : (s.fdses p).fd ≠ -1) :
    Counted host (handleFailedRead s p) := by
  obtain ⟨c, opened⟩ := inv.holds p here live
  obtain ⟨below, fresh⟩ := (inv.current c).mp ⟨_, opened⟩
  have extended : (c :: s.closed).Nodup := List.nodup_cons.mpr ⟨fresh, counted.once⟩
  have inside : c :: s.closed ⊆ List.range s.accepted := by
    intro c' member
    rcases List.mem_cons.mp member with rfl | old
    · exact List.mem_range.mpr below
    · exact List.mem_range.mpr (inv.known c' old)
  have more := (extended.subperm inside).length_le
  rw [List.length_cons, List.length_range] at more
  have exact := counted.exact
  have positive : (1 : UInt32) ≤ s.numConnections := by
    rw [UInt32.le_iff_toNat_le]
    change 1 ≤ s.numConnections.toNat
    omega
  have less : (s.numConnections - 1).toNat = s.numConnections.toNat - 1 :=
    UInt32.toNat_sub_of_le _ _ positive
  have bounded := counted.bounded
  rw [handleFailedRead_open opened]
  refine ⟨?_, ?_, ?_, ?_⟩
  · exact List.nodup_append_comm.mp extended
  · change s.subtracted ++ [some c] = (s.closed ++ [c]).map some
    rw [counted.paired, List.map_append, List.map_singleton]
  · change (s.numConnections - 1).toNat + (s.closed ++ [c]).length = s.accepted
    rw [List.length_append, List.length_singleton]
    omega
  · change (s.numConnections - 1).toNat ≤ _
    omega

theorem below_capacity {s : State nWork} (room : ¬ atCapacity host s) :
    s.numConnections.toNat ≤ 2 * host.nworkers.toNat := by
  have cancel : host.nworkers * 2 + 1 - 1 = host.nworkers * 2 := by grind
  unfold atCapacity at room
  rw [cancel, gt_iff_lt, UInt64.lt_iff_toNat_lt, UInt64.toNat_mul] at room
  have wrapped := Nat.mod_le (host.nworkers.toNat * (2 : UInt64).toNat) (2 ^ 64)
  have widened : s.numConnections.toUInt64.toNat = s.numConnections.toNat := by simp
  have two : (2 : UInt64).toNat = 2 := rfl
  rw [widened, two] at room
  rw [two] at wrapped
  omega

theorem counted_store {s : State nWork} (inv : Table host s) (counted : Counted host s)
    (newsock : Int) (r : PollThread) (room : ¬ atCapacity host s) :
    Counted host (store s newsock r) := by
  have few := openConnections_few inv
  have count := card_openConnections inv counted.once
  have exact := counted.exact
  have below := below_capacity room
  have small : s.numConnections.toNat + 1 < 2 ^ 32 := by
    unfold maxFds at few
    omega
  have more : (s.numConnections + 1).toNat = s.numConnections.toNat + 1 := by
    rw [UInt32.toNat_add]
    exact Nat.mod_eq_of_lt small
  refine ⟨counted.once, counted.paired, ?_, ?_⟩
  · change (s.numConnections + 1).toNat + s.closed.length = s.accepted + 1
    omega
  · change (s.numConnections + 1).toNat ≤ _
    omega

def stores (host : Host) (s : State nWork) (t : PollThread) : Prop :=
  ∃ i, s.pollPc t = .scanning i ∧ t = 0 ∧ (s.fdses (t, i)).fd = host.serverSock ∧
    (s.fdses (t, i)).revents = pollIn ∧ ¬ atCapacity host s ∧ s.currIndexes 0 ≠ maxFds

/-- New sockets find room, and a failed read finds its slot in use and not marked -1. -/
def Orderly (host : Host) (s : State nWork) : Label nWork → Prop
  | .scan t _ r => stores host s t → s.currIndexes r < maxFds
  | .serve w outcome => outcome = .failedReadOfOperation ∨ outcome = .failedRead →
      ∀ req sock, s.worker w = .handling req sock →
        s.client req.slot ∧ (s.fdses req.slot).fd ≠ -1
  | _ => True

structure Booked (host : Host) (s : State nWork) : Prop where
  table : Table host s
  counted : Counted host s

theorem Booked.frame {s s' : State nWork} (booked : Booked host s) (fdses : s'.fdses = s.fdses)
    (currIndexes : s'.currIndexes = s.currIndexes) (sockets : s'.sockets = s.sockets)
    (accepted : s'.accepted = s.accepted) (closed : s'.closed = s.closed)
    (subtracted : s'.subtracted = s.subtracted)
    (numConnections : s'.numConnections = s.numConnections) : Booked host s' :=
  ⟨booked.table.frame fdses currIndexes sockets accepted closed,
    booked.counted.frame closed subtracted numConnections accepted⟩

theorem booked_setPc {s : State nWork} (booked : Booked host s) (t : PollThread) (pc : PollPc) :
    Booked host (s.setPc t pc) :=
  booked.frame rfl rfl rfl rfl rfl rfl rfl

theorem booked_setWorker {s : State nWork} (booked : Booked host s) (w : Fin nWork)
    (pc : WorkerPc) : Booked host (s.setWorker w pc) :=
  booked.frame rfl rfl rfl rfl rfl rfl rfl

theorem booked_setSlot {s : State nWork} (booked : Booked host s) {p : Slot} {x : PollFd}
    (same : x.fd = (s.fdses p).fd)
    (revents : x.revents = (s.fdses p).revents ∨ x.revents = 0) : Booked host (s.setSlot p x) :=
  ⟨table_setSlot booked.table same revents, booked.counted.frame rfl rfl rfl rfl⟩

theorem booked_resetRevents {s : State nWork} (booked : Booked host s) (p : Slot) :
    Booked host (resetRevents s p) :=
  booked_setSlot booked rfl (Or.inr rfl)

theorem booked_handleFailedRead {s : State nWork} (booked : Booked host s) {p : Slot}
    (here : s.client p) (live : (s.fdses p).fd ≠ -1) : Booked host (handleFailedRead s p) :=
  ⟨table_handleFailedRead booked.table here live,
    counted_handleFailedRead booked.table booked.counted here live⟩

theorem booked_afterPoll {s : State nWork} (booked : Booked host s) {t : PollThread}
    {ready : Nat → UInt16} (told : ∀ i < s.currIndexes t, reportable s t ready i) :
    Booked host (afterPoll s t ready) := by
  have pipe : posit t < s.currIndexes t := Nat.lt_of_lt_of_le (posit_lt_base t) (booked.table.room t).1
  have told_pipe : ((report s t ready).fdses (t, posit t)).revents = ready (posit t) := by
    simp [report, pipe]
  unfold afterPoll
  dsimp only
  split
  · exact booked_setPc
      ⟨table_report_reset booked.table told, booked.counted.frame rfl rfl rfl rfl⟩ t .purging
  · rename_i asleep
    rw [told_pipe] at asleep
    have after : Booked host (report s t ready) :=
      ⟨table_report booked.table told asleep, booked.counted.frame rfl rfl rfl rfl⟩
    split
    · exact booked_setPc after t .purging
    · exact booked_setPc after t (.scanning 0)

theorem booked_accept {s : State nWork} (booked : Booked host s) {newsock : Int} {r : PollThread}
    (free : ¬ inUse host s newsock)
    (room : ¬ atCapacity host s → s.currIndexes 0 ≠ maxFds → s.currIndexes r < maxFds) :
    Booked host (acceptConnection host s newsock r) := by
  unfold acceptConnection
  split
  · exact booked.frame rfl rfl rfl rfl rfl rfl rfl
  · rename_i valid
    split
    · exact booked
    · rename_i below
      split
      · exact booked.frame rfl rfl rfl rfl rfl rfl rfl
      · rename_i roomy
        have space := room below roomy
        rw [if_pos space]
        exact ⟨table_store booked.table free (Int.not_lt.mp valid) space,
          counted_store booked.table booked.counted newsock r below⟩

theorem booked_step (s : State nWork) (l : Label nWork) (t : State nWork) (booked : Booked host s)
    (orderly : Orderly host s l) (taken : step host s l = some t) : Booked host t := by
  cases move_of_step taken with
  | poll polling told => exact booked_afterPoll booked told
  | interrupted polling => exact booked_setPc booked _ _
  | skip here inside gone => exact booked_setPc booked _ _
  | quiet here inside live => exact booked_setPc (booked_resetRevents booked _) _ _
  | @hangUp t i newsock r here inside live hup =>
    refine booked_setPc (booked_handleFailedRead booked ⟨?_, inside⟩ live) _ _
    rcases Nat.lt_or_ge i (base t) with own | client
    · exact absurd (booked.table.quiet (t, i) own).1 hup
    · exact client
  | @accept i newsock r here inside free listening event =>
    refine booked_setPc (booked_resetRevents (booked_accept booked free ?_) _) _ _
    intro below room
    exact orderly ⟨i, here, rfl, listening, event, below, room⟩
  | @process t i newsock r here inside live event other =>
    have asked : Booked host (s.setSlot (t, i) { s.fdses (t, i) with events := 0 }) :=
      booked_setSlot booked rfl (Or.inl rfl)
    have queued : Booked host (process s (t, i)) := asked.frame rfl rfl rfl rfl rfl rfl rfl
    exact booked_setPc (booked_resetRevents queued _) _ _
  | scanned => exact booked_setPc booked _ _
  | roomy => exact booked_setPc booked _ _
  | purge full =>
    exact booked_setPc ⟨table_purge booked.table full, booked.counted.frame rfl rfl rfl rfl⟩ _ _
  | take free front => exact booked.frame rfl rfl rfl rfl rfl rfl rfl
  | @serve w req sock outcome handling readable =>
    cases outcome with
    | served => exact booked_setWorker booked _ _
    | threw => exact booked.frame rfl rfl rfl rfl rfl rfl rfl
    | failedReadOfOperation =>
      obtain ⟨here, live⟩ := orderly (Or.inl rfl) req sock handling
      exact booked_setWorker (booked_handleFailedRead booked here live) _ _
    | failedRead =>
      obtain ⟨here, live⟩ := orderly (Or.inr rfl) req sock handling
      exact booked_setWorker (booked_handleFailedRead booked here live) _ _
  | @rearm w req gone rearming =>
    have armed : Booked host (s.setSlot req.slot { s.fdses req.slot with events := pollIn }) :=
      booked_setSlot booked rfl (Or.inl rfl)
    exact booked_setWorker armed _ _

theorem booked_of_reachable {s : State nWork}
    (reached : Reachable (step host) (atStart host) (Orderly host) s) : Booked host s :=
  reached.invariant (fun _ begin => begin ▸ ⟨table_start, counted_start⟩) booked_step

/-- `num_connections` is the number of accepted sockets not closed yet, every close is of a
connection of its own and subtracted once, and the configured bound is kept. -/
structure Accounted (host : Host) (s : State nWork) : Prop where
  counts : s.numConnections.toNat = (openConnections s).card
  once : s.closed.Nodup
  paired : s.subtracted = s.closed.map some
  bounded : s.numConnections.toNat ≤ 2 * host.nworkers.toNat + 1

theorem connections_accounted {s : State nWork}
    (reached : Reachable (step host) (atStart host) (Orderly host) s) : Accounted host s := by
  have booked := booked_of_reachable reached
  have count := card_openConnections booked.table booked.counted.once
  have exact := booked.counted.exact
  exact ⟨by omega, booked.counted.once, booked.counted.paired, booked.counted.bounded⟩

theorem setPc_subtracted (s : State nWork) (t : PollThread) (pc : PollPc) :
    (s.setPc t pc).subtracted = s.subtracted := rfl

theorem setPc_closed (s : State nWork) (t : PollThread) (pc : PollPc) :
    (s.setPc t pc).closed = s.closed := rfl

/-- After a purge has moved a slot under a queued request, the worker's close of the connection and
the hang-up of the moved slot are both subtracted. -/
theorem moved_connection_subtracted_twice :
    ¬ ∀ (host : Host) (s : State 4), Reachable (step host) (atStart host) anyStep s →
      Accounted host s := by
  intro always
  have paired := (always busyHost _ closedTwice_reachable).paired
  obtain ⟨closed, subtracted⟩ := closedTwice_books
  rw [setPc_subtracted, setPc_closed, closed, subtracted] at paired
  exact absurd paired (by decide)

theorem orderly_of_calm {s : State 4} {l : Label 4} (calm : Calm s l) : Orderly host s l := by
  cases l with
  | scan t newsock r => exact fun _ => calm.1
  | serve w outcome =>
    obtain rfl : outcome = .served := calm
    rintro (failed | failed) <;> cases failed
  | poll | interrupted | purge | take | rearm => trivial

theorem first_client_accounted : ∃ s : State 4,
    followIf (step busyHost) Calm (start busyHost 4) clientVisit = some s ∧ s.accepted = 1 ∧ s.closed = [0] ∧
      Accounted busyHost s := by
  obtain ⟨s, taken, accepted, closed, reached⟩ := visit_reachable fun s l calm => orderly_of_calm calm
  exact ⟨s, taken, accepted, closed, connections_accounted reached⟩

end Connections

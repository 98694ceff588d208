import Cirrus.ConnectionTable

/-
Runs of the server. A poll thread passes over slots without events, thread 0
takes in a client in one round, and so a thread's array fills. From a full
array with one dead slot, the purge moves the slots that follow it, whatever
refers to them.
-/
namespace Connections
open Transition

variable {nWork : Nat} {host : Host}

attribute [local instance] threads_neZero

theorem setPc_setPc (s : State nWork) (t : PollThread) (a b : PollPc) :
    (s.setPc t a).setPc t b = s.setPc t b := by
  simp [State.setPc]

theorem setPc_self {s : State nWork} {t : PollThread} {pc : PollPc} (here : s.pollPc t = pc) :
    s.setPc t pc = s := by
  unfold State.setPc
  rw [← here, Function.update_eq_self]

theorem setSlot_self {s : State nWork} {p : Slot} {x : PollFd} (here : s.fdses p = x) :
    s.setSlot p x = s := by
  unfold State.setSlot
  rw [← here, Function.update_eq_self]

theorem step_scan (s : State nWork) (t : PollThread) (i : Nat) {newsock : Int}
    (running : s.health = .running) (inside : i < s.currIndexes t) (free : ¬ inUse host s newsock)
    (r : PollThread) :
    step host (s.setPc t (.scanning i)) (.scan t newsock r) =
      some ((scanSlot host (s.setPc t (.scanning i)) (t, i) newsock r).setPc t
        (.scanning (i + 1))) := by
  have here : (s.setPc t (.scanning i)).pollPc t = .scanning i := by simp [State.setPc]
  have running' : (s.setPc t (.scanning i)).health = .running := running
  have free' : ¬ inUse host (s.setPc t (.scanning i)) newsock := free
  have inside' : i < (s.setPc t (.scanning i)).currIndexes t := inside
  simp only [step, running', here, free', inside', ne_eq, not_true_eq_false, if_false, if_true]

theorem step_poll {s : State nWork} {t : PollThread} {ready : Nat → UInt16}
    (running : s.health = .running) (polling : s.pollPc t = .polling)
    (told : ∀ i < s.currIndexes t, reportable s t ready i)
    (pipe : ((report s t ready).fdses (t, posit t)).revents ≠ pollIn)
    (events : ¬ ∀ i < s.currIndexes t, ready i = 0) :
    step host s (.poll t ready) = some ((report s t ready).setPc t (.scanning 0)) := by
  have after : afterPoll s t ready = (report s t ready).setPc t (.scanning 0) := by
    unfold afterPoll
    dsimp only
    exact (if_neg pipe).trans (if_neg events)
  simp only [step, running, ne_eq, not_true_eq_false, if_false]
  rw [if_pos ⟨polling, told⟩, after]

theorem step_take (host : Host) {s : State nWork} {w : Fin nWork} {req : Request} {rest : List Request}
    (running : s.health = .running) (free : s.worker w = .free) (front : s.toProcess = req :: rest) :
    step host s (.take w) =
      some { s.setWorker w (.handling req (s.fdses req.slot).fd) with toProcess := rest } := by
  simp [step, takeRequest, running, free, front]

theorem step_serve (host : Host) {s : State nWork} {w : Fin nWork} {req : Request} {sock : Int}
    (running : s.health = .running) (handling : s.worker w = .handling req sock)
    (readable : s.sockets sock ≠ none) (outcome : Outcome) :
    step host s (.serve w outcome) = some (finish s w req outcome) := by
  simp [step, running, handling, readable]

theorem step_rearm (host : Host) {s : State nWork} {w : Fin nWork} {req : Request} {gone : Bool}
    (running : s.health = .running) (rearming : s.worker w = .rearming req gone) :
    step host s (.rearm w) = some (rearmSlot s w req) := by
  simp [step, running, rearming]

theorem take_and_fail {s : State nWork} {w : Fin nWork} {req : Request} {rest : List Request}
    {c : Nat} (reached : Reachable (step host) (atStart host) anyStep s)
    (running : s.health = .running) (free : s.worker w = .free) (front : s.toProcess = req :: rest)
    (opened : s.sockets (s.fdses req.slot).fd = some c) :
    Reachable (step host) (atStart host) anyStep
      { handleFailedRead s req.slot with toProcess := rest } := by
  let holding : State nWork :=
    { s.setWorker w (.handling req (s.fdses req.slot).fd) with toProcess := rest }
  have running' : holding.health = .running := running
  have handling : holding.worker w = .handling req (s.fdses req.slot).fd := by
    simp [holding, State.setWorker]
  have opened' : holding.sockets (holding.fdses req.slot).fd = some c := opened
  have readable : holding.sockets (s.fdses req.slot).fd ≠ none := by
    rw [show holding.sockets (s.fdses req.slot).fd = some c from opened]
    exact Option.some_ne_none c
  have ended : finish holding w req .failedReadOfOperation =
      { handleFailedRead s req.slot with toProcess := rest } := by
    change (handleFailedRead holding req.slot).setWorker w .free = _
    rw [handleFailedRead_open opened', handleFailedRead_open opened]
    refine State.ext rfl rfl rfl rfl ?_ rfl rfl rfl rfl rfl rfl
    change Function.update (Function.update s.worker w _) w .free = s.worker
    rw [Function.update_idem, ← free, Function.update_eq_self]
  have serving := step_serve host running' handling readable .failedReadOfOperation
  rw [ended] at serving
  exact .step (.step reached trivial (step_take host running free front)) trivial serving

theorem scanSlot_quiet {s : State nWork} {p : Slot} (quiet : (s.fdses p).revents = 0)
    (newsock : Int) (r : PollThread) : scanSlot host s p newsock r = s := by
  have silent : (0 : UInt16) ≠ pollIn := by decide
  have no_hup : (0 : UInt16) &&& pollHup = 0 := by decide
  have same : resetRevents s p = s := setSlot_self (by rw [← quiet])
  unfold scanSlot
  dsimp only
  rw [quiet, if_pos silent, if_neg (not_not.mpr no_hup), same, ite_self]

theorem handleFailedRead_setPc (s : State nWork) (t : PollThread) (pc : PollPc) (p : Slot) :
    handleFailedRead (s.setPc t pc) p = (handleFailedRead s p).setPc t pc := by
  unfold handleFailedRead closeFd
  dsimp only [State.setPc, subtract]
  split <;> rfl

theorem fail_between {s : State nWork} {w : Fin nWork} {req : Request} {rest : List Request}
    {c : Nat} {t : PollThread} {pc : PollPc}
    (reached : Reachable (step host) (atStart host) anyStep (s.setPc t pc))
    (running : s.health = .running) (free : s.worker w = .free) (front : s.toProcess = req :: rest)
    (opened : s.sockets (s.fdses req.slot).fd = some c) :
    Reachable (step host) (atStart host) anyStep
      (State.setPc { handleFailedRead s req.slot with toProcess := rest } t pc) := by
  have failed := take_and_fail reached running free front opened
  rwa [handleFailedRead_setPc] at failed

theorem handleFailedRead_shut {s : State nWork} {p : Slot}
    (shut : s.sockets (s.fdses p).fd = none) :
    (handleFailedRead s p).closed = s.closed ∧
      (handleFailedRead s p).subtracted = s.subtracted ++ [none] := by
  simp [handleFailedRead, closeFd, subtract, State.setSlot, shut]

theorem purgeSlots_setPc (s : State nWork) (t : PollThread) (pc : PollPc) :
    purgeSlots (s.setPc t pc) t = (purgeSlots s t).setPc t pc := rfl

theorem scanSlot_hangUp {s : State nWork} {p : Slot} {newsock : Int} {r : PollThread}
    (live : (s.fdses p).fd ≠ -1) (hup : (s.fdses p).revents = pollHup) :
    scanSlot host s p newsock r = handleFailedRead s p := by
  have other : pollHup ≠ pollIn := by decide
  have bit : pollHup &&& pollHup ≠ 0 := by decide
  unfold scanSlot
  dsimp only
  rw [if_neg live, hup, if_pos other, if_pos bit, reset_hangUp]

theorem scanSlot_process {s : State nWork} {p : Slot} {newsock : Int} {r : PollThread}
    (live : (s.fdses p).fd ≠ -1) (event : (s.fdses p).revents = pollIn) (later : p.1 ≠ 0) :
    scanSlot host s p newsock r = resetRevents (process s p) p := by
  unfold scanSlot
  dsimp only
  rw [if_neg live, event, if_neg (not_not.mpr rfl), if_neg (fun both => later both.1)]

theorem scans_quiet {s : State nWork} {t : PollThread} {i : Nat} (n : Nat) {newsock : Int}
    (running : s.health = .running) (free : ¬ inUse host s newsock)
    (reached : Reachable (step host) (atStart host) anyStep (s.setPc t (.scanning i)))
    (quiet : ∀ j, i ≤ j → j < i + n → j < s.currIndexes t ∧ (s.fdses (t, j)).revents = 0) :
    Reachable (step host) (atStart host) anyStep (s.setPc t (.scanning (i + n))) := by
  induction n with
  | zero => exact reached
  | succ n ih =>
    have before := ih fun j above below => quiet j above (by omega)
    obtain ⟨inside, silent⟩ := quiet (i + n) (by omega) (by omega)
    have passed : scanSlot host (s.setPc t (.scanning (i + n))) (t, i + n) newsock 0 =
        s.setPc t (.scanning (i + n)) := by
      apply scanSlot_quiet
      exact silent
    refine .step before trivial (?_ : step host _ (.scan t newsock 0) = _)
    rw [step_scan s t (i + n) running inside free, passed, setPc_setPc]
    rfl

theorem scan_end {s : State nWork} {t : PollThread} {i : Nat} {newsock : Int}
    (running : s.health = .running) (free : ¬ inUse host s newsock)
    (reached : Reachable (step host) (atStart host) anyStep (s.setPc t (.scanning i)))
    (outside : s.currIndexes t ≤ i) :
    Reachable (step host) (atStart host) anyStep (s.setPc t .purging) := by
  have here : (s.setPc t (.scanning i)).pollPc t = .scanning i := Function.update_self _ _ _
  have same : inUse host (s.setPc t (.scanning i)) newsock ↔ inUse host s newsock := Iff.rfl
  have past : ¬ i < (s.setPc t (.scanning i)).currIndexes t := Nat.not_lt.mpr outside
  have run : (s.setPc t (.scanning i)).health = .running := running
  refine .step reached trivial (?_ : step host _ (.scan t newsock 0) = _)
  simp only [step, run, here, same, free, past, ne_eq, not_true_eq_false, if_false, setPc_setPc]

theorem answerable {events told : UInt16} (asks : events = pollIn)
    (either : told = 0 ∨ told = pollIn ∨ told = pollHup) :
    told &&& ~~~(events ||| pollErr ||| pollHup ||| pollNval) = 0 := by
  subst asks
  rcases either with rfl | rfl | rfl <;> decide

/-- `poll` tells thread 0 that a client waits at the listening socket, and nothing else. -/
def callWaiting (i : Nat) : UInt16 := if i = 0 then pollIn else 0

theorem report_callWaiting {s : State nWork} (size : s.currIndexes 0 = 2)
    (asleep : (s.fdses (0, 1)).revents = 0) :
    report s 0 callWaiting = s.setSlot (0, 0) { s.fdses (0, 0) with revents := pollIn } := by
  have slots : (report s 0 callWaiting).fdses =
      Function.update s.fdses (0, 0) { s.fdses (0, 0) with revents := pollIn } := by
    funext p
    obtain ⟨t, i⟩ := p
    dsimp only [report]
    rw [size]
    split
    · rename_i here
      obtain ⟨rfl, inside⟩ := here
      rcases Nat.le_one_iff_eq_zero_or_eq_one.mp (Nat.le_of_lt_succ inside) with rfl | rfl
      · rw [Function.update_self]
        rfl
      · rw [Function.update_of_ne (by decide), ← show (s.fdses (0, 1)).revents = callWaiting 1 from asleep]
    · rename_i outside
      rw [Function.update_of_ne]
      intro eq
      cases eq
      exact outside ⟨rfl, by decide⟩
  exact congrArg (fun f => { s with fdses := f }) slots

theorem scan_listening {s : State nWork} {newsock : Int} {r : PollThread}
    (slot : s.fdses (0, 0) = { fd := host.serverSock, events := pollIn, revents := pollIn })
    (valid : 0 ≤ newsock) (below : ¬ atCapacity host s) (roomy : s.currIndexes 0 ≠ maxFds)
    (room : s.currIndexes r < maxFds) :
    scanSlot host s (0, 0) newsock r = resetRevents (store s newsock r) (0, 0) := by
  have server : host.serverSock ≠ -1 := by
    have := host.serverSock_nonneg
    omega
  have accepted : acceptConnection host s newsock r = store s newsock r := by
    unfold acceptConnection
    rw [if_neg (Int.not_lt.mpr valid), if_neg below, if_neg roomy, if_pos room]
  unfold scanSlot
  dsimp only
  rw [slot, if_neg server, if_neg (by simp), if_pos ⟨rfl, rfl⟩, accepted]

theorem store_called {s : State nWork} {r : PollThread} (away : r ≠ 0)
    (quiet : (s.fdses (0, 0)).revents = 0) (newsock : Int) :
    resetRevents (store (s.setSlot (0, 0) { s.fdses (0, 0) with revents := pollIn }) newsock r)
      (0, 0) = store s newsock r := by
  have apart : ((0, 0) : Slot) ≠ (r, s.currIndexes r) := fun eq => away (congrArg Prod.fst eq).symm
  refine State.ext ?_ rfl rfl rfl rfl rfl rfl rfl rfl rfl rfl
  funext p
  dsimp only [resetRevents, store, State.setSlot]
  rcases Classical.em (p = (0, 0)) with rfl | other
  · rw [Function.update_self, Function.update_of_ne apart, Function.update_of_ne apart,
      Function.update_self, ← quiet]
  · rw [Function.update_of_ne other]
    rcases Classical.em (p = (r, s.currIndexes r)) with rfl | elsewhere
    · rw [Function.update_self, Function.update_self, Function.update_of_ne apart.symm]
    · rw [Function.update_of_ne elsewhere, Function.update_of_ne elsewhere,
        Function.update_of_ne other]

structure Quiet (host : Host) (s : State nWork) : Prop where
  running : s.health = .running
  polling : s.pollPc 0 = .polling
  size : s.currIndexes 0 = 2
  listening : s.fdses (0, 0) = { fd := host.serverSock, events := pollIn }
  asleep : s.fdses (0, 1) = { fd := host.pipe 0, events := pollIn }

theorem poll_called {s : State nWork} (quiet : Quiet host s) :
    step host s (.poll 0 callWaiting) =
      some ((s.setSlot (0, 0) { s.fdses (0, 0) with revents := pollIn }).setPc 0 (.scanning 0)) := by
  obtain ⟨running, polling, size, listening, asleep⟩ := quiet
  have told := report_callWaiting size (by rw [asleep])
  have kernel : ∀ i < s.currIndexes 0, reportable s 0 callWaiting i := by
    intro i inside
    rw [size] at inside
    rcases Nat.le_one_iff_eq_zero_or_eq_one.mp (Nat.le_of_lt_succ inside) with rfl | rfl
    · refine ⟨?_, answerable (by rw [listening]) (Or.inr (Or.inl rfl)), fun _ => Or.inr rfl⟩
      intro negative
      rw [listening] at negative
      exact absurd host.serverSock_nonneg (Int.not_le.mpr negative)
    · exact ⟨fun _ => rfl, answerable (by rw [asleep]) (Or.inl rfl), fun _ => Or.inl rfl⟩
  have events : ¬ ∀ i < s.currIndexes 0, callWaiting i = 0 := by
    intro none
    have first := none 0 (by omega)
    revert first
    decide
  have other : ((0, 1) : Slot) ≠ (0, 0) := by decide
  have pipe : ((report s 0 callWaiting).fdses (0, posit 0)).revents ≠ pollIn := by
    rw [told]
    dsimp only [State.setSlot, posit]
    rw [if_pos rfl, Function.update_of_ne other, asleep]
    exact (by decide : (0 : UInt16) ≠ pollIn)
  rw [step_poll running polling kernel pipe events, told]

theorem quiet_store {s : State nWork} (quiet : Quiet host s) {r : PollThread} (away : r ≠ 0)
    (newsock : Int) : Quiet host (store s newsock r) := by
  have apart : ∀ i, ((0, i) : Slot) ≠ (r, s.currIndexes r) :=
    fun i eq => away (congrArg Prod.fst eq).symm
  exact ⟨quiet.running, quiet.polling, (Function.update_of_ne away.symm _ _).trans quiet.size,
    (Function.update_of_ne (apart 0) _ _).trans quiet.listening,
    (Function.update_of_ne (apart 1) _ _).trans quiet.asleep⟩

theorem accept_round {s : State nWork} {newsock spare : Int} {r : PollThread}
    (reached : Reachable (step host) (atStart host) anyStep s) (quiet : Quiet host s)
    (away : r ≠ 0) (free : ¬ inUse host s newsock) (valid : 0 ≤ newsock)
    (below : ¬ atCapacity host s) (room : s.currIndexes r < maxFds)
    (free' : ¬ inUse host (store s newsock r) spare) :
    Reachable (step host) (atStart host) anyStep (store s newsock r) := by
  have after := quiet_store quiet away newsock
  have small : ∀ s : State nWork, s.currIndexes 0 = 2 → s.currIndexes 0 ≠ maxFds := by
    intro s size
    rw [size]
    decide
  have called := poll_called quiet
  have stored : Reachable (step host) (atStart host) anyStep
      ((store s newsock r).setPc 0 (.scanning 1)) := by
    let waiting := s.setSlot (0, 0) { s.fdses (0, 0) with revents := pollIn }
    have inside : 0 < waiting.currIndexes 0 := by
      rw [show waiting.currIndexes 0 = 2 from quiet.size]
      decide
    have slot : (waiting.setPc 0 (.scanning 0)).fdses (0, 0) =
        { fd := host.serverSock, events := pollIn, revents := pollIn } := by
      simp [waiting, State.setPc, State.setSlot, quiet.listening]
    have kept : resetRevents (store (waiting.setPc 0 (.scanning 0)) newsock r) (0, 0) =
        (store s newsock r).setPc 0 (.scanning 0) := by
      have restored := store_called away (show (s.fdses (0, 0)).revents = 0 by rw [quiet.listening]) newsock
      exact congrArg (fun s => s.setPc 0 (.scanning 0)) restored
    refine .step (.step reached trivial called) trivial (?_ : step host _ (.scan 0 newsock r) = _)
    rw [step_scan waiting 0 0 quiet.running inside free,
      scan_listening slot valid below (small _ quiet.size) room, kept, setPc_setPc]
  have scanned := scans_quiet 1 after.running free' stored (by
    intro j above below
    obtain rfl : j = 1 := by omega
    rw [after.size, after.asleep]
    exact ⟨by decide, rfl⟩)
  have purging := scan_end after.running free' scanned (Nat.le_of_eq after.size)
  refine .step purging trivial (?_ : step host _ (.purge 0) = _)
  have here : ((store s newsock r).setPc 0 .purging).pollPc 0 = .purging := by simp [State.setPc]
  have small' : ((store s newsock r).setPc 0 .purging).currIndexes 0 ≠ maxFds := small _ after.size
  have running' : ((store s newsock r).setPc 0 .purging).health = .running := after.running
  have still : (store s newsock r).setPc 0 .polling = store s newsock r := setPc_self quiet.polling
  simp only [step, running', here, small', if_true, if_false, ne_eq, not_true_eq_false,
    setPc_setPc, still]

/- A server for 1000 workers, whose own descriptors are 3 to 6. -/
def busyHost : Host where
  nworkers := 1000
  serverSock := 3
  pipe t := 4 + t.val
  serverSock_nonneg := by decide
  pipe_nonneg t := by omega
  pipe_ne_serverSock t := by omega

def filled (k : Nat) : State 4 where
  fdses p := if p.1 = 1 ∧ 1 ≤ p.2 ∧ p.2 ≤ k then { fd := 7 + p.2, events := pollIn }
    else (start busyHost 4).fdses p
  currIndexes t := if t = 1 then k + 1 else base t
  sockets f := if 8 ≤ f ∧ f < 8 + k then some (f - 8).toNat else none
  numConnections := UInt32.ofNat k
  accepted := k

theorem filled_free (k : Nat) : ¬ inUse busyHost (filled k) (8 + k) := by
  rintro (opened | server | ⟨t, pipe⟩)
  · apply opened
    simp [filled]
  · change (8 + k : Int) = 3 at server
    omega
  · change (8 + k : Int) = 4 + t.val at pipe
    omega

theorem filled_client {k i : Nat} (first : 1 ≤ i) (last : i ≤ k) :
    (filled k).fdses (1, i) = { fd := 7 + i, events := pollIn } := if_pos ⟨rfl, first, last⟩

theorem filled_beyond {k i : Nat} (beyond : k < i) : (filled k).fdses (1, i) = {} := by
  have outside : ¬ (i ≤ k) := Nat.not_le.mpr beyond
  have client : ¬ (i < base 1) := by
    change ¬ (i < 1)
    omega
  simp [filled, start, outside, client]

theorem store_filled (k : Nat) : store (filled k) (8 + k) 1 = filled (k + 1) := by
  have size : (filled k).currIndexes 1 = k + 1 := rfl
  refine State.ext ?_ ?_ rfl rfl rfl ?_ ?_ rfl rfl rfl rfl
  · funext p
    obtain ⟨t, i⟩ := p
    dsimp only [store, State.setSlot]
    rw [size]
    rcases Classical.em ((t, i) = ((1, k + 1) : Slot)) with new | old
    · rw [new, Function.update_self]
      rw [filled_beyond (Nat.lt_succ_self k), filled_client (by omega) (Nat.le_refl _)]
      have next : (8 + k : Int) = 7 + (k + 1 : Nat) := by omega
      rw [next]
    · rw [Function.update_of_ne old]
      have other : ¬ (t = 1 ∧ i = k + 1) := fun ⟨a, b⟩ => old (by rw [a, b])
      dsimp only [filled]
      by_cases first : t = 1
      · subst first
        have : i ≠ k + 1 := fun eq => other ⟨rfl, eq⟩
        have le : i ≤ k + 1 ↔ i ≤ k := by omega
        simp only [le]
      · simp [first]
  · funext t
    dsimp only [store]
    rcases Classical.em (t = 1) with rfl | other
    · rw [Function.update_self]
      rfl
    · rw [Function.update_of_ne other]
      simp [filled, other]
  · funext f
    dsimp only [store]
    rcases Classical.em (f = 8 + k) with rfl | other
    · rw [Function.update_self]
      simp [filled]
    · rw [Function.update_of_ne other]
      have lt : f < 8 + ((k + 1 : Nat) : Int) ↔ f < 8 + k := by omega
      simp only [filled, lt]
  · change UInt32.ofNat k + 1 = UInt32.ofNat (k + 1)
    rw [UInt32.ofNat_add]
    rfl

theorem filled_quiet (k : Nat) : Quiet busyHost (filled k) :=
  ⟨rfl, rfl, rfl, rfl, rfl⟩

theorem filled_below {k : Nat} (few : k ≤ 2000) : ¬ atCapacity busyHost (filled k) := by
  unfold atCapacity
  rw [gt_iff_lt, UInt64.lt_iff_toNat_lt]
  have count : (filled k).numConnections.toUInt64.toNat = k := by
    simp [filled]
    omega
  have bound : (busyHost.nworkers * 2 + 1 - 1).toNat = 2000 := rfl
  rw [count, bound]
  omega

theorem filled_zero : filled 0 = start busyHost 4 := by
  refine State.ext ?_ ?_ rfl rfl rfl ?_ rfl rfl rfl rfl rfl
  · funext p
    have none : ¬ (p.1 = 1 ∧ 1 ≤ p.2 ∧ p.2 ≤ 0) := by omega
    dsimp only [filled]
    rw [if_neg none]
  · funext t
    match t with
    | 0 | 1 | 2 => rfl
  · funext f
    have none : ¬ (8 ≤ f ∧ f < 8 + ((0 : Nat) : Int)) := by omega
    dsimp only [filled]
    rw [if_neg none]
    rfl

theorem filled_reachable {k : Nat} (few : k < maxFds) :
    Reachable (step busyHost) (atStart busyHost) anyStep (filled k) := by
  induction k with
  | zero => exact .start filled_zero
  | succ k ih =>
    have room : (filled k).currIndexes 1 < maxFds := few
    have spare : ¬ inUse busyHost (store (filled k) (8 + k) 1) (8 + (k + 1 : Nat)) := by
      rw [store_filled]
      exact filled_free (k + 1)
    rw [← store_filled]
    unfold maxFds at few
    exact accept_round (ih (by unfold maxFds; omega)) (filled_quiet k) (by decide) (filled_free k) (by omega)
      (filled_below (by omega)) room spare

def hupAndData (i : Nat) : UInt16 := if i = 1 then pollHup else if i = 1999 then pollIn else 0

def crowded : State 4 := filled 1999

def told : State 4 := report crowded 1 hupAndData

theorem told_slot (i : Nat) (first : 1 ≤ i) (last : i ≤ 1999) :
    told.fdses (1, i) = { fd := 7 + i, events := pollIn, revents := hupAndData i } := by
  have inside : i < crowded.currIndexes 1 := Nat.lt_succ_of_le last
  dsimp only [told, report]
  rw [if_pos ⟨rfl, inside⟩, crowded, filled_client first last]

theorem told_pipe : told.fdses (1, 0) = { fd := 5, events := pollIn } := rfl

theorem hupAndData_reportable : ∀ i < crowded.currIndexes 1, reportable crowded 1 hupAndData i := by
  intro i inside
  have bound : i ≤ 1999 := Nat.le_of_lt_succ inside
  rcases Nat.eq_zero_or_pos i with rfl | first
  · exact ⟨fun _ => rfl, answerable rfl (Or.inl rfl), fun _ => Or.inl rfl⟩
  · have slot : crowded.fdses (1, i) = { fd := 7 + i, events := pollIn } := filled_client first bound
    refine ⟨?_, answerable (by rw [slot]) ?_, ?_⟩
    · intro negative
      rw [slot] at negative
      dsimp only at negative
      omega
    · unfold hupAndData
      split
      · exact Or.inr (Or.inr rfl)
      · split
        · exact Or.inr (Or.inl rfl)
        · exact Or.inl rfl
    · intro own
      change i < 1 at own
      omega

theorem told_reachable :
    Reachable (step busyHost) (atStart busyHost) anyStep (told.setPc 1 (.scanning 0)) := by
  have before := filled_reachable (show 1999 < maxFds by decide)
  have pipe : (told.fdses (1, posit 1)).revents ≠ pollIn := by
    exact (by decide : (0 : UInt16) ≠ pollIn)
  have events : ¬ ∀ i < crowded.currIndexes 1, hupAndData i = 0 := by
    intro none
    have first := none 1 (by decide)
    revert first
    decide
  exact .step before trivial (step_poll rfl rfl hupAndData_reportable pipe events)

def hungUp : State 4 := handleFailedRead told (1, 1)

theorem told_sockets : told.sockets (told.fdses (1, 1)).fd = some 0 := rfl

theorem hungUp_eq : hungUp =
    { told.setSlot (1, 1) { fd := -1, events := pollIn, revents := 0 } with
      sockets := Function.update told.sockets 8 none
      closed := [0]
      numConnections := told.numConnections - 1
      subtracted := [some 0] } :=
  handleFailedRead_open told_sockets

theorem hungUp_size : hungUp.currIndexes 1 = maxFds := by
  rw [hungUp_eq]
  rfl

theorem hungUp_running : hungUp.health = .running := by
  rw [hungUp_eq]
  rfl

theorem hungUp_polling : hungUp.pollPc 1 = .polling := by
  rw [hungUp_eq]
  rfl

theorem hungUp_slot (i : Nat) (first : 2 ≤ i) (last : i ≤ 1999) :
    hungUp.fdses (1, i) = { fd := 7 + i, events := pollIn, revents := hupAndData i } := by
  have other : ((1, i) : Slot) ≠ (1, 1) := by
    intro eq
    have : i = 1 := congrArg Prod.snd eq
    omega
  rw [hungUp_eq, ← told_slot i (by omega) last]
  exact Function.update_of_ne other _ _

theorem spare_free (s : State 4) (sockets : s.sockets 5000 = none) : ¬ inUse busyHost s 5000 := by
  rintro (opened | server | ⟨t, pipe⟩)
  · exact opened sockets
  · exact absurd server (by decide)
  · change (5000 : Int) = 4 + t.val at pipe
    omega

theorem hungUp_reachable :
    Reachable (step busyHost) (atStart busyHost) anyStep (hungUp.setPc 1 (.scanning 2)) := by
  have free : ¬ inUse busyHost told 5000 := spare_free told rfl
  have first := scans_quiet 1 rfl free told_reachable (by
    intro j above below
    obtain rfl : j = 0 := by omega
    exact ⟨by decide, rfl⟩)
  have slot : (told.setPc 1 (.scanning 1)).fdses (1, 1) =
      { fd := 8, events := pollIn, revents := pollHup } := told_slot 1 (by decide) (by decide)
  refine .step first trivial (?_ : step busyHost _ (.scan 1 5000 0) = _)
  rw [step_scan told 1 1 rfl (by decide) free,
    scanSlot_hangUp (by rw [slot]; decide) (by rw [slot]), handleFailedRead_setPc, setPc_setPc]
  rfl

def queued : State 4 := resetRevents (process hungUp (1, 1999)) (1, 1999)

theorem queued_last : queued.fdses (1, 1999) = { fd := 2006 } := by
  have slot := hungUp_slot 1999 (by decide) (by decide)
  simp only [queued, resetRevents, process, State.setSlot, Function.update_self, slot]
  rfl

theorem queued_elsewhere (i : Nat) (other : i ≠ 1999) :
    queued.fdses (1, i) = hungUp.fdses (1, i) := by
  have apart : ((1, i) : Slot) ≠ (1, 1999) := fun eq => other (congrArg Prod.snd eq)
  simp only [queued, resetRevents, process, State.setSlot, Function.update_of_ne apart]

theorem queued_slot (i : Nat) (first : 2 ≤ i) (last : i < 1999) :
    queued.fdses (1, i) = { fd := 7 + i, events := pollIn } := by
  have silent : hupAndData i = 0 := by
    unfold hupAndData
    rw [if_neg (by omega), if_neg (by omega)]
  rw [queued_elsewhere i (by omega), hungUp_slot i first (by omega), silent]

theorem queued_reachable :
    Reachable (step busyHost) (atStart busyHost) anyStep (queued.setPc 1 .purging) := by
  have free : ¬ inUse busyHost hungUp 5000 := spare_free hungUp (by rw [hungUp_eq]; rfl)
  have size : hungUp.currIndexes 1 = 2000 := hungUp_size
  have running : hungUp.health = .running := hungUp_running
  have passed := scans_quiet 1997 running free hungUp_reachable (by
    intro j above below
    have silent : hupAndData j = 0 := by
      unfold hupAndData
      rw [if_neg (by omega), if_neg (by omega)]
    rw [size, hungUp_slot j (by omega) (by omega), silent]
    exact ⟨by omega, rfl⟩)
  have slot : (hungUp.setPc 1 (.scanning 1999)).fdses (1, 1999) =
      { fd := 2006, events := pollIn, revents := pollIn } := hungUp_slot 1999 (by decide) (by decide)
  have processed : Reachable (step busyHost) (atStart busyHost) anyStep
      (queued.setPc 1 (.scanning 2000)) := by
    refine .step passed trivial (?_ : step busyHost _ (.scan 1 5000 0) = _)
    rw [step_scan hungUp 1 1999 running (by rw [size]; decide) free,
      scanSlot_process (by rw [slot]; decide) (by rw [slot]) (by decide)]
    exact congrArg some (setPc_setPc queued 1 _ _)
  have free' : ¬ inUse busyHost queued 5000 := free
  have running' : queued.health = .running := running
  exact scan_end running' free' processed (Nat.le_of_eq size)

def purged : State 4 := purgeSlots queued 1

theorem queued_row_dead (i : Nat) (inside : i ≤ 1999) :
    dead (queued.row 1 i) = decide (i = 1) := by
  rcases Nat.lt_or_ge i 2 with small | first
  · rcases Nat.le_one_iff_eq_zero_or_eq_one.mp (Nat.le_of_lt_succ small) with rfl | rfl
    · have pipe : queued.fdses (1, 0) = { fd := 5, events := pollIn } := by
        rw [queued_elsewhere 0 (by decide), hungUp_eq]
        rfl
      exact (congrArg dead pipe).trans rfl
    · have marked : queued.fdses (1, 1) = { fd := -1, events := pollIn, revents := 0 } := by
        rw [queued_elsewhere 1 (by decide), hungUp_eq]
        simp [State.setSlot]
      exact (congrArg dead marked).trans rfl
  · have fd : (queued.fdses (1, i)).fd = 7 + i := by
      rcases Nat.lt_or_eq_of_le inside with lt | rfl
      · rw [queued_slot i first lt]
      · rw [queued_last]
        rfl
    have other : ¬ i = 1 := by omega
    unfold dead State.row
    rw [fd]
    simp [other]
    omega

theorem queued_rank (i : Nat) (first : 2 ≤ i) (inside : i ≤ 2000) :
    Compaction.rank dead (queued.row 1) i + 1 = i := by
  induction i with
  | zero => omega
  | succ i ih =>
    have here := queued_row_dead i (by omega)
    rw [Compaction.rank, here]
    rcases Nat.lt_or_ge i 2 with small | later
    · obtain rfl : i = 1 := by omega
      have pipe := queued_row_dead 0 (by omega)
      rw [Compaction.rank, Compaction.rank, pipe]
      rfl
    · have other : ¬ i = 1 := by omega
      have before := ih later (by omega)
      simp only [other, decide_false, Bool.false_eq_true, if_false]
      omega

theorem purged_place (i : Nat) (first : 2 ≤ i) (inside : i ≤ 1999) :
    purged.fdses (1, i - 1) = queued.fdses (1, i) := by
  have rank := queued_rank i first (by omega)
  have alive : dead (queued.row 1 i) = false := by
    rw [queued_row_dead i inside]
    exact decide_eq_false (by omega)
  have place := Compaction.removeIf_rank dead (queued.row 1)
    (show i < maxFds by unfold maxFds; omega) alive
  have back : Compaction.rank dead (queued.row 1) i = i - 1 := by omega
  rw [back] at place
  simpa [purged, purgeSlots, State.row] using place

theorem purged_last : purged.fdses (1, 1999) = queued.fdses (1, 1999) := by
  have rank := queued_rank 2000 (by omega) (by omega)
  have tail := Compaction.removeIf_tail dead (queued.row 1)
    (show Compaction.rank dead (queued.row 1) maxFds ≤ 1999 by unfold maxFds; omega)
  simpa [purged, purgeSlots, State.row] using tail

theorem purged_size : purged.currIndexes 1 = 1999 := by
  have rank := queued_rank 2000 (by omega) (by omega)
  have total := Compaction.removed_add_rank dead (queued.row 1) maxFds
  have size : queued.currIndexes 1 = maxFds := hungUp_size
  unfold maxFds at total size
  simp only [purged, purgeSlots, Function.update_self, size, maxFds]
  omega

theorem purged_reachable : Reachable (step busyHost) (atStart busyHost) anyStep purged := by
  have full : queued.currIndexes 1 = maxFds := hungUp_size
  have running : queued.health = .running := hungUp_running
  have polling : purged.pollPc 1 = .polling := hungUp_polling
  refine .step queued_reachable trivial (?_ : step busyHost _ (.purge 1) = _)
  have here : (queued.setPc 1 .purging).pollPc 1 = .purging := by simp [State.setPc]
  have running' : (queued.setPc 1 .purging).health = .running := running
  have full' : (queued.setPc 1 .purging).currIndexes 1 = maxFds := full
  have moved : (purgeSlots (queued.setPc 1 .purging) 1).setPc 1 .polling = purged := by
    rw [purgeSlots_setPc, setPc_setPc]
    exact setPc_self polling
  simp only [step, running', here, full', moved, if_true, if_false, ne_eq, not_true_eq_false]

theorem told_last : told.sockets 2006 = some 1998 := by
  change (if 8 ≤ (2006 : Int) ∧ (2006 : Int) < 8 + (1999 : Nat) then some ((2006 : Int) - 8).toNat else none) = _
  rw [if_pos (by omega)]
  rfl

def late : Request := { sock := 2006, id := 1, pollFd := 1999, conn := some 1998 }

theorem purged_sockets : purged.sockets 2006 = some 1998 := by
  change hungUp.sockets 2006 = some 1998
  have other : (2006 : Int) ≠ 8 := by decide
  rw [hungUp_eq, ← told_last]
  exact Function.update_of_ne other none told.sockets

theorem purged_queue : purged.toProcess = [late] := by
  have slot := hungUp_slot 1999 (by decide) (by decide)
  have fd : (hungUp.fdses (1, 1999)).fd = 2006 := by
    rw [slot]
    rfl
  have empty : hungUp.toProcess = [] := by
    rw [hungUp_eq]
    rfl
  have sock : hungUp.sockets 2006 = some 1998 := purged_sockets
  have pushed : purged.toProcess = hungUp.toProcess ++
      [{ sock := (hungUp.fdses (1, 1999)).fd, id := 1, pollFd := 1999,
         conn := hungUp.sockets (hungUp.fdses (1, 1999)).fd }] := rfl
  rw [pushed, empty, fd, sock, List.nil_append, late]

theorem purged_stale : purged.fdses (1, 1998) = { fd := 2006 } ∧
    purged.fdses (1, 1999) = { fd := 2006 } := by
  constructor
  · rw [purged_place 1999 (by decide) (by decide), queued_last]
  · rw [purged_last, queued_last]

theorem purged_idle : purged.health = .running ∧ ∀ w, purged.worker w = .free := by
  change hungUp.health = .running ∧ ∀ w, hungUp.worker w = .free
  rw [hungUp_eq]
  exact ⟨rfl, fun _ => rfl⟩

def stale : State 4 := { purged.setWorker 0 (.handling late 2006) with toProcess := [] }

theorem stale_reachable : Reachable (step busyHost) (atStart busyHost) anyStep stale := by
  have taken := step_take busyHost purged_idle.1 (purged_idle.2 0) purged_queue
  rw [late, show Request.slot _ = ((1, 1999) : Slot) from rfl, purged_stale.2] at taken
  exact .step purged_reachable trivial taken
def lastHup (i : Nat) : UInt16 := if i = 1998 then pollHup else 0

def toldAgain : State 4 := report purged 1 lastHup

theorem toldAgain_slot (i : Nat) (inside : i < 1999) :
    toldAgain.fdses (1, i) = { purged.fdses (1, i) with revents := lastHup i } := by
  dsimp only [toldAgain, report]
  rw [if_pos ⟨rfl, by rw [purged_size]; exact inside⟩]

theorem toldAgain_reachable :
    Reachable (step busyHost) (atStart busyHost) anyStep (toldAgain.setPc 1 (.scanning 0)) := by
  have polling : purged.pollPc 1 = .polling := hungUp_polling
  have kernel : ∀ i < purged.currIndexes 1, reportable purged 1 lastHup i := by
    intro i inside
    rw [purged_size] at inside
    rcases Classical.em (i = 1998) with rfl | other
    · have last := purged_stale.1
      refine ⟨?_, ?_, ?_⟩
      · intro negative
        rw [last] at negative
        exact absurd negative (by decide)
      · rw [last]
        decide
      · intro own
        exact absurd own (by decide)
    · have silent : lastHup i = 0 := if_neg other
      rw [reportable, silent]
      exact ⟨fun _ => rfl, by simp, fun _ => Or.inl rfl⟩
  have pipe : (toldAgain.fdses (1, posit 1)).revents ≠ pollIn := by
    rw [show posit 1 = 0 from rfl, toldAgain_slot 0 (by decide)]
    exact (by decide : (0 : UInt16) ≠ pollIn)
  have events : ¬ ∀ i < purged.currIndexes 1, lastHup i = 0 := by
    intro none
    have last := none 1998 (by rw [purged_size]; decide)
    revert last
    decide
  exact .step purged_reachable trivial (step_poll purged_idle.1 polling kernel pipe events)

theorem toldAgain_last : toldAgain.fdses (1, 1999) = { fd := 2006 } := by
  rw [← purged_stale.2]
  dsimp only [toldAgain, report]
  rw [if_neg (by rw [purged_size]; omega)]

theorem toldAgain_frame : toldAgain.sockets = purged.sockets ∧ toldAgain.closed = [0] ∧
    toldAgain.subtracted = [some 0] ∧ toldAgain.toProcess = [late] ∧
    toldAgain.health = .running ∧ toldAgain.currIndexes 1 = 1999 ∧
    ∀ w, toldAgain.worker w = .free := by
  have closed : hungUp.closed = [0] ∧ hungUp.subtracted = [some 0] := by
    rw [hungUp_eq]
    exact ⟨rfl, rfl⟩
  exact ⟨rfl, closed.1, closed.2, purged_queue, purged_idle.1, purged_size, purged_idle.2⟩

/-- The worker has found the end of the stream and has closed the socket through the place the slot
was at, while the other thread has yet to look at the hang-up. -/
def closedStale : State 4 := { handleFailedRead toldAgain late.slot with toProcess := [] }

theorem toldAgain_opened : toldAgain.sockets (toldAgain.fdses late.slot).fd = some 1998 := by
  rw [toldAgain_frame.1, show late.slot = (1, 1999) from rfl, toldAgain_last]
  exact purged_sockets

theorem closedStale_reachable :
    Reachable (step busyHost) (atStart busyHost) anyStep (closedStale.setPc 1 (.scanning 0)) := by
  obtain ⟨_, _, _, queue, running, _, free⟩ := toldAgain_frame
  exact fail_between toldAgain_reachable running (free 0) queue toldAgain_opened

theorem closedStale_eq : closedStale =
    { toldAgain.setSlot late.slot { toldAgain.fdses late.slot with fd := -1, revents := 0 } with
      toProcess := []
      sockets := Function.update toldAgain.sockets (toldAgain.fdses late.slot).fd none
      closed := toldAgain.closed ++ [1998]
      numConnections := toldAgain.numConnections - 1
      subtracted := toldAgain.subtracted ++ [some 1998] } := by
  rw [closedStale, handleFailedRead_open toldAgain_opened]

theorem closedStale_slot (i : Nat) (inside : i < 1999) :
    closedStale.fdses (1, i) = { purged.fdses (1, i) with revents := lastHup i } := by
  have other : ((1, i) : Slot) ≠ late.slot := by
    intro eq
    have : i = 1999 := congrArg Prod.snd eq
    omega
  rw [closedStale_eq, ← toldAgain_slot i inside]
  exact Function.update_of_ne other _ toldAgain.fdses

def closedTwice : State 4 := handleFailedRead closedStale (1, 1998)

theorem closedTwice_books : closedTwice.closed = [0, 1998] ∧
    closedTwice.subtracted = [some 0, some 1998, none] := by
  obtain ⟨_, closed, subtracted, _⟩ := toldAgain_frame
  have fd : (closedStale.fdses (1, 1998)).fd = 2006 := by
    rw [closedStale_slot 1998 (by decide), purged_stale.1]
  have shut : closedStale.sockets 2006 = none := by
    have fd : (toldAgain.fdses late.slot).fd = 2006 := congrArg PollFd.fd toldAgain_last
    rw [closedStale_eq]
    simp only [fd, Function.update_self]
  have kept : closedStale.closed = [0, 1998] ∧
      closedStale.subtracted = [some 0, some 1998] := by
    rw [closedStale_eq, closed, subtracted]
    exact ⟨rfl, rfl⟩
  rw [← fd] at shut
  have twice := handleFailedRead_shut shut
  rw [closedTwice, twice.1, twice.2, kept.1, kept.2]
  exact ⟨rfl, rfl⟩

theorem closedTwice_reachable :
    Reachable (step busyHost) (atStart busyHost) anyStep (closedTwice.setPc 1 (.scanning 1999)) := by
  obtain ⟨sockets, _, _, _, running, size, _⟩ := toldAgain_frame
  have running' : closedStale.health = .running := by
    rw [closedStale_eq]
    exact running
  have size' : closedStale.currIndexes 1 = 1999 := by
    rw [closedStale_eq]
    exact size
  have free : ¬ inUse busyHost closedStale 5000 := by
    apply spare_free
    have fd : (toldAgain.fdses late.slot).fd = 2006 := congrArg PollFd.fd toldAgain_last
    have other : (5000 : Int) ≠ 2006 := by decide
    rw [closedStale_eq, fd]
    refine (Function.update_of_ne other none toldAgain.sockets).trans ?_
    rw [sockets]
    change hungUp.sockets 5000 = none
    rw [hungUp_eq]
    rfl
  have passed := scans_quiet 1998 running' free closedStale_reachable (by
    intro j above below
    have silent : lastHup j = 0 := if_neg (by omega)
    rw [size', closedStale_slot j (by omega), silent]
    exact ⟨by omega, rfl⟩)
  have slot : (closedStale.setPc 1 (.scanning 1998)).fdses (1, 1998) =
      { fd := 2006, revents := pollHup } := by
    rw [show (closedStale.setPc 1 (.scanning 1998)).fdses = closedStale.fdses from rfl,
      closedStale_slot 1998 (by decide), purged_stale.1]
    rfl
  rw [Nat.zero_add] at passed
  refine .step passed trivial (?_ : step busyHost _ (.scan 1 5000 0) = _)
  rw [step_scan closedStale 1 1998 running' (by rw [size']; decide) free,
    scanSlot_hangUp (by rw [slot]; decide) (by rw [slot]), handleFailedRead_setPc, setPc_setPc,
    closedTwice]

section Visit

local instance visited_neZero : NeZero 4 := ⟨by decide⟩

local instance visitedThreads_neZero : NeZero 3 := ⟨by decide⟩

def WorkerPc.away (sock : Int) : WorkerPc → Bool
  | .free => true
  | .handling _ other => other ≠ sock
  | .rearming _ _ => false

/-- Steps that no condition on the runs speaks of: there is room for new sockets, no worker is in the way of a scan, no
array is full and no read fails. -/
def Calm (s : State 4) : Label 4 → Prop
  | .scan _ newsock r => s.currIndexes r < maxFds ∧ ∀ w, (s.worker w).away newsock = true
  | .purge t => s.currIndexes t < maxFds
  | .serve _ outcome => outcome = .served
  | _ => True

instance (s : State 4) (l : Label 4) : Decidable (Calm s l) := by
  cases l <;> unfold Calm <;> infer_instance

def clientReports (revents : UInt16) (i : Nat) : UInt16 := if i = 1 then revents else 0

/-- A client is accepted, sends a request that is served and re-armed, and hangs up. -/
def clientVisit : List (Label 4) :=
  [.poll 0 callWaiting, .scan 0 8 1,
    .poll 1 (clientReports pollIn), .scan 1 9 0, .scan 1 9 0, .scan 1 9 0, .purge 1,
    .take 0, .serve 0 .served, .rearm 0,
    .poll 1 (clientReports pollHup), .scan 1 9 0, .scan 1 9 0]

theorem visit_reachable {permitted : State 4 → Label 4 → Prop} (calm : ∀ s l, Calm s l → permitted s l) :
    ∃ s, followIf (step busyHost) Calm (start busyHost 4) clientVisit = some s ∧ s.accepted = 1 ∧ s.closed = [0] ∧
      Reachable (step busyHost) (atStart busyHost) permitted s := by
  have outcome : (followIf (step busyHost) Calm (start busyHost 4) clientVisit).map (fun s => (s.accepted, s.closed)) =
      some (1, [0]) := by decide
  obtain ⟨s, taken, facts⟩ := Option.map_eq_some_iff.mp outcome
  obtain ⟨accepted, closed⟩ := Prod.mk.inj facts
  have reached : Reachable (step busyHost) (atStart busyHost) Calm s := Reachable.followIf (.start rfl) taken
  exact ⟨s, taken, accepted, closed, reached.weaken calm⟩

end Visit

end Connections

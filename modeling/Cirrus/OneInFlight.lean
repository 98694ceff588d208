import Cirrus.RequestSlots

/-
The steps of the workers on the slots of their requests, and what holds of the
requests in flight in every run that does not disturb them.
-/
namespace Connections
open Transition

variable {nWork : Nat} {host : Host}

/-- A step of the worker that holds `q`: the slots of the other requests stay as they are, the
request stays with the worker or is done with, and then its slot is armed again or marked. -/
theorem Slots.worked {s s' : State nWork} (inv : Slots s) {w : Fin nWork} {q : Request}
    {pc : WorkerPc} (held : (s.worker w).request = some q)
    (toProcess : s'.toProcess = s.toProcess) (worker : s'.worker = Function.update s.worker w pc)
    (client : ∀ p, s'.client p ↔ s.client p)
    (live : ∀ q', s.outstanding q' → q'.slot ≠ q.slot → Live s q' →
      Live s' q' ∧ (s'.fdses q'.slot).fd = (s.fdses q'.slot).fd)
    (gone : ∀ q', Gone s q' → Gone s' q')
    (shut : ∀ sock, s.sockets sock = none → s'.sockets sock = none)
    (slots : ∀ p, p ≠ q.slot → s'.fdses p = s.fdses p)
    (after : (pc = .free ∧ ((s'.fdses q.slot).fd ≠ -1 → (s'.fdses q.slot).events = pollIn)) ∨
      pc = .rearming q false ∧ Live s' q ∨ pc = .rearming q true ∧ Gone s' q) : Slots s' := by
  have mine : pc.request = none ∨ pc.request = some q := by
    rcases after with ⟨rfl, _⟩ | ⟨rfl, _⟩ | ⟨rfl, _⟩
    · exact Or.inl rfl
    · exact Or.inr rfl
    · exact Or.inr rfl
  have self : s'.worker w = pc := by rw [worker, Function.update_self]
  have others : ∀ v, v ≠ w → s'.worker v = s.worker v := fun v other => by
    rw [worker, Function.update_of_ne other]
  have request : ∀ v q', (s'.worker v).request = some q' → (s.worker v).request = some q' := by
    intro v q' now
    rcases Classical.em (v = w) with rfl | other
    · rw [self] at now
      rcases mine with none | same
      · rw [none] at now
        cases now
      · rw [held, ← same, now]
    · rwa [others v other] at now
  have outstanding : ∀ q', s'.outstanding q' → s.outstanding q' := by
    rintro q' (queued | ⟨v, now⟩)
    · exact Or.inl (toProcess ▸ queued)
    · exact Or.inr ⟨v, request v q' now⟩
  have elsewhere : ∀ v q', v ≠ w → (s.worker v).request = some q' → q'.slot ≠ q.slot :=
    fun v q' other now eq => other (inv.apart v w q' q now held eq)
  refine ⟨?_, ?_, ?_, ?_, toProcess ▸ inv.nodup, ?_, ?_, ?_⟩
  · intro q' queued
    rw [toProcess] at queued
    have other : q'.slot ≠ q.slot := (inv.disjoint w q q' held queued).symm
    exact (inv.queued q' queued).imp (fun known => (live q' (Or.inl queued) other known).1)
      (gone q')
  · intro v q' sock handling
    rcases Classical.em (v = w) with rfl | other
    · rw [self] at handling
      rcases after with ⟨rfl, _⟩ | ⟨rfl, _⟩ | ⟨rfl, _⟩ <;> cases handling
    · rw [others v other] at handling
      have now : (s.worker v).request = some q' := congrArg WorkerPc.request handling
      rcases inv.handling v q' sock handling with ⟨known, eq⟩ | ⟨known, none⟩
      · obtain ⟨still, fd⟩ := live q' (worker_outstanding now) (elsewhere v q' other now) known
        exact Or.inl ⟨still, fd.trans eq⟩
      · exact Or.inr ⟨gone q' known, shut sock none⟩
  · intro v q' flag rearming
    rcases Classical.em (v = w) with rfl | other
    · rw [self] at rearming
      rcases after with ⟨rfl, _⟩ | ⟨rfl, known⟩ | ⟨rfl, known⟩
      · cases rearming
      · cases rearming
        exact Or.inl ⟨rfl, known⟩
      · cases rearming
        exact Or.inr ⟨rfl, known⟩
    · rw [others v other] at rearming
      have now : (s.worker v).request = some q' := congrArg WorkerPc.request rearming
      have far := elsewhere v q' other now
      exact (inv.rearming v q' flag rearming).imp
        (And.imp_right fun known => (live q' (worker_outstanding now) far known).1)
        (And.imp_right (gone q'))
  · intro q' out
    exact (client _).mpr (inv.client q' (outstanding q' out))
  · intro v v' q' q'' now now'
    exact inv.apart v v' q' q'' (request v q' now) (request v' q'' now')
  · intro v q' q'' now queued
    rw [toProcess] at queued
    exact inv.disjoint v q' q'' (request v q' now) queued
  · intro p here live' free
    rcases Classical.em (p = q.slot) with rfl | other
    · rcases after with ⟨_, armed⟩ | ⟨rfl, _⟩ | ⟨rfl, _⟩
      · exact armed live'
      · exact absurd rfl (free q (worker_outstanding (by rw [self]; rfl)))
      · exact absurd rfl (free q (worker_outstanding (by rw [self]; rfl)))
    · rw [slots p other] at live' ⊢
      refine inv.armed p ((client p).mp here) live' ?_
      rintro q' (queued | ⟨v, now⟩) eq
      · exact free q' (Or.inl (toProcess ▸ queued)) eq
      · rcases Classical.em (v = w) with rfl | far
        · obtain rfl : q' = q := Option.some.inj (now.symm.trans held)
          exact other eq.symm
        · exact free q' (Or.inr ⟨v, by rw [others v far, now]⟩) eq

theorem slots_served {s : State nWork} (inv : Slots s) {w : Fin nWork} {q : Request} {sock : Int}
    (handling : s.worker w = .handling q sock) (live : Live s q) :
    Slots (s.setWorker w (.rearming q false)) := by
  have held : (s.worker w).request = some q := congrArg WorkerPc.request handling
  exact inv.worked held rfl rfl (fun _ => Iff.rfl) (fun _ _ _ known => ⟨known, rfl⟩)
    (fun _ known => known) (fun _ none => none) (fun _ _ => rfl) (Or.inr (Or.inl ⟨rfl, live⟩))

theorem slots_failedRead {s : State nWork} (table : Table host s) (inv : Slots s) {w : Fin nWork}
    {q : Request} {sock : Int} (handling : s.worker w = .handling q sock) (live : Live s q)
    {pc : WorkerPc} (ends : pc = .free ∨ pc = .rearming q true) :
    Slots ((handleFailedRead s q.slot).setWorker w pc) := by
  have held : (s.worker w).request = some q := congrArg WorkerPc.request handling
  have here := inv.client q (worker_outstanding held)
  have fd := live_fd table live
  obtain ⟨toProcess, worker⟩ := closing_requests s q.slot
  have workers : ((handleFailedRead s q.slot).setWorker w pc).worker =
      Function.update s.worker w pc := by
    dsimp only [State.setWorker]
    rw [worker]
  refine inv.worked held toProcess workers
    (closing_client s q.slot) ?_ (fun q' known => gone_closing known) (fun sock none => shut_stays none)
    ?_ ?_
  · intro q' out other known
    exact live_elsewhere table here fd (inv.client q' out) other known
  · intro p other
    obtain ⟨c, opened, _⟩ := live
    rw [handleFailedRead_open opened]
    exact Function.update_of_ne other _ _
  · obtain ⟨gone, _⟩ := gone_here live
    rcases ends with rfl | rfl
    · exact Or.inl ⟨rfl, fun still => absurd gone.1 still⟩
    · exact Or.inr (Or.inr ⟨rfl, gone⟩)

theorem slots_rearm {s : State nWork} (inv : Slots s) {w : Fin nWork} {q : Request} {gone : Bool}
    (rearming : s.worker w = .rearming q gone) : Slots (rearmSlot s w q) := by
  have held : (s.worker w).request = some q := congrArg WorkerPc.request rearming
  have slot_self : (rearmSlot s w q).fdses q.slot = { s.fdses q.slot with events := pollIn } :=
    Function.update_self _ _ _
  have slot : ∀ p, p ≠ q.slot → (rearmSlot s w q).fdses p = s.fdses p :=
    fun p other => Function.update_of_ne other _ _
  refine inv.worked held rfl rfl (fun _ => Iff.rfl) ?_ ?_ (fun _ none => none) slot
    (Or.inl ⟨rfl, fun _ => by rw [slot_self]⟩)
  · rintro q' _ other ⟨c, opened, conn, silent, quiet⟩
    have same := slot q'.slot other
    exact ⟨⟨c, by rw [same]; exact opened, conn, by rw [same, silent], by rwa [same]⟩, by rw [same]⟩
  · rintro q' ⟨marked, conn⟩
    refine ⟨?_, conn⟩
    rcases Classical.em (q'.slot = q.slot) with eq | other
    · rw [eq, slot_self, ← marked, eq]
    · rw [slot _ other, marked]

theorem slots_take {s : State nWork} (table : Table host s) (inv : Slots s) {w : Fin nWork}
    {req : Request} {rest : List Request} (free : s.worker w = .free)
    (front : s.toProcess = req :: rest) :
    Slots { s.setWorker w (.handling req (s.fdses req.slot).fd) with toProcess := rest } := by
  have first : req ∈ s.toProcess := front ▸ List.mem_cons_self
  have later : ∀ q, q ∈ rest → q ∈ s.toProcess := fun q member => front ▸ List.mem_cons_of_mem _ member
  have self : ∀ pc, Function.update s.worker w pc w = pc := fun pc => Function.update_self _ _ _
  have others : ∀ pc v, v ≠ w → Function.update s.worker w pc v = s.worker v :=
    fun pc v other => Function.update_of_ne other _ _
  have split : ∀ v q, (Function.update s.worker w (.handling req (s.fdses req.slot).fd) v).request =
      some q → v = w ∧ q = req ∨ v ≠ w ∧ (s.worker v).request = some q := by
    intro v q held
    rcases Classical.em (v = w) with rfl | other
    · rw [self] at held
      exact Or.inl ⟨rfl, (Option.some.inj held).symm⟩
    · rw [others _ v other] at held
      exact Or.inr ⟨other, held⟩
  have distinct := inv.nodup
  rw [front, List.map_cons, List.nodup_cons] at distinct
  refine ⟨fun q queued => inv.queued q (later q queued), ?_, ?_, ?_, distinct.2, ?_, ?_, ?_⟩
  · intro v q sock handling
    dsimp only [State.setWorker] at handling
    rcases Classical.em (v = w) with rfl | other
    · rw [self] at handling
      cases handling
      rcases inv.queued req first with live | gone
      · exact Or.inl ⟨live, rfl⟩
      · have shut := minus_one_shut table
        rw [← gone.1] at shut
        exact Or.inr ⟨gone, shut⟩
    · rw [others _ v other] at handling
      exact inv.handling v q sock handling
  · intro v q gone rearming
    dsimp only [State.setWorker] at rearming
    rcases Classical.em (v = w) with rfl | other
    · rw [self] at rearming
      cases rearming
    · rw [others _ v other] at rearming
      exact inv.rearming v q gone rearming
  · rintro q (queued | ⟨v, held⟩)
    · exact inv.client q (Or.inl (later q queued))
    · rcases split v q held with ⟨_, rfl⟩ | ⟨_, held'⟩
      · exact inv.client q (Or.inl first)
      · exact inv.client q (worker_outstanding held')
  · intro v v' q q' held held' eq
    rcases split v q held with ⟨rfl, rfl⟩ | ⟨_, old⟩ <;>
      rcases split v' q' held' with ⟨rfl, rfl⟩ | ⟨_, old'⟩
    · rfl
    · exact absurd eq.symm (inv.disjoint v' q' q old' first)
    · exact absurd eq (inv.disjoint v q q' old first)
    · exact inv.apart v v' q q' old old' eq
  · intro v q q' held queued eq
    rcases split v q held with ⟨_, rfl⟩ | ⟨_, old⟩
    · exact distinct.1 (eq ▸ List.mem_map_of_mem queued)
    · exact inv.disjoint v q q' old (later q' queued) eq
  · intro p here live untouched
    refine inv.armed p here live ?_
    rintro q (queued | ⟨v, held⟩) eq
    · rw [front] at queued
      rcases List.mem_cons.mp queued with rfl | member
      · exact untouched q (Or.inr ⟨w, by dsimp only [State.setWorker]; rw [self]; rfl⟩) eq
      · exact untouched q (Or.inl member) eq
    · rcases Classical.em (v = w) with rfl | other
      · rw [free] at held
        cases held
      · exact untouched q (Or.inr ⟨v, by dsimp only [State.setWorker]; rw [others _ v other, held]⟩) eq

/-- New sockets find room and are not the socket a worker still has at hand, nobody hangs up a slot
that a worker is about to re-arm, and no purge moves a slot that a request refers to. -/
def Undisturbed (host : Host) (s : State nWork) : Label nWork → Prop
  | .scan t newsock r =>
    (stores host s t → s.currIndexes r < maxFds ∧
      ∀ w q sock, s.worker w = .handling q sock → newsock ≠ sock) ∧
    ∀ i, s.pollPc t = .scanning i → (s.fdses (t, i)).fd ≠ -1 →
      (s.fdses (t, i)).revents &&& pollHup ≠ 0 →
      ∀ w q gone, s.worker w = .rearming q gone → q.slot ≠ (t, i)
  | .purge t => s.currIndexes t = maxFds → ∀ q, s.outstanding q → q.id = t →
      ∀ j ≤ q.pollFd, (s.fdses (t, j)).fd ≠ -1
  | _ => True

theorem readable_live {s : State nWork} (inv : Slots s) {w : Fin nWork} {q : Request} {sock : Int}
    (handling : s.worker w = .handling q sock) (readable : s.sockets sock ≠ none) :
    Live s q ∧ (s.fdses q.slot).fd = sock := by
  rcases inv.handling w q sock handling with known | ⟨_, none⟩
  · exact known
  · exact absurd none readable

theorem orderly_of_undisturbed {s t : State nWork} {l : Label nWork} (table : Table host s)
    (inv : Slots s) (undisturbed : Undisturbed host s l) (move : Move host s l t) :
    Orderly host s l := by
  cases move with
  | poll polling told => trivial
  | interrupted polling => trivial
  | skip here inside gone => exact fun keeps => (undisturbed.1 keeps).1
  | quiet here inside live => exact fun keeps => (undisturbed.1 keeps).1
  | hangUp here inside live hup => exact fun keeps => (undisturbed.1 keeps).1
  | accept here inside free listening event => exact fun keeps => (undisturbed.1 keeps).1
  | process here inside live event other => exact fun keeps => (undisturbed.1 keeps).1
  | scanned => exact fun keeps => (undisturbed.1 keeps).1
  | roomy => trivial
  | purge full => trivial
  | take free front => trivial
  | rearm rearming => trivial
  | @serve w req sock outcome handling readable =>
    rintro failed req' sock' handling'
    rw [handling] at handling'
    cases handling'
    have opened : s.sockets sock ≠ none := by
      rcases readable with opened | rfl
      · exact opened
      · simp at failed
    have live := (readable_live inv handling opened).1
    exact ⟨inv.client req (worker_outstanding (congrArg WorkerPc.request handling)),
      live_fd table live⟩

theorem slots_step {s t : State nWork} {l : Label nWork} (table : Table host s) (inv : Slots s)
    (undisturbed : Undisturbed host s l) (move : Move host s l t) : Slots t := by
  cases move with
  | poll polling told => exact slots_afterPoll inv told
  | interrupted polling => exact slots_setPc inv _ _
  | skip here inside gone => exact slots_setPc inv _ _
  | quiet here inside live => exact slots_setPc (slots_resetRevents inv _) _ _
  | @hangUp t i newsock r here inside live hup =>
    have client : s.client (t, i) := by
      refine ⟨?_, inside⟩
      by_contra below
      exact hup (table.quiet (t, i) (Nat.lt_of_not_le below)).1
    exact slots_setPc (slots_hangUp table inv client live (undisturbed.2 i here live hup)) _ _
  | @accept i newsock r here inside free listening event =>
    refine slots_setPc (slots_resetRevents (slots_accept table inv free ?_) _) _ _
    intro below room
    exact (undisturbed.1 ⟨i, here, rfl, listening, event, below, room⟩).2
  | process here inside live event other =>
    exact slots_setPc
      (slots_process table inv (processed_client table.placed inside event other) live event) _ _
  | scanned => exact slots_setPc inv _ _
  | roomy => exact slots_setPc inv _ _
  | purge full => exact slots_setPc (slots_purge table inv full (undisturbed full)) _ _
  | take free front => exact slots_take table inv free front
  | rearm rearming => exact slots_rearm inv rearming
  | @serve w req sock outcome handling readable =>
    cases outcome with
    | threw => exact slots_health inv _
    | served =>
      have opened : s.sockets sock ≠ none := by simpa using readable
      exact slots_served inv handling (readable_live inv handling opened).1
    | failedReadOfOperation =>
      have opened : s.sockets sock ≠ none := by simpa using readable
      exact slots_failedRead table inv handling (readable_live inv handling opened).1 (Or.inl rfl)
    | failedRead =>
      have opened : s.sockets sock ≠ none := by simpa using readable
      exact slots_failedRead table inv handling (readable_live inv handling opened).1 (Or.inr rfl)

def State.holdsConn (s : State nWork) (p : Slot) (c : Nat) : Prop :=
  s.client p ∧ s.sockets (s.fdses p).fd = some c

def inFlight (s : State nWork) (c : Nat) : Nat :=
  s.toProcess.countP (fun q => q.conn = some c) +
    (Finset.univ.filter fun w => (s.worker w).request.any fun q => q.conn = some c).card

/-- What a worker closes or re-arms next is the slot that holds the connection it reads, or the one
it has itself marked closed. -/
def EndsOnOwnSlot (s : State nWork) : WorkerPc → Prop
  | .free => True
  | .handling q sock => s.sockets sock ≠ none →
      (s.fdses q.slot).fd = sock ∧ ∃ c, q.conn = some c ∧ s.holdsConn q.slot c
  | .rearming q gone => if gone then (s.fdses q.slot).fd = -1
      else ∃ c, q.conn = some c ∧ s.holdsConn q.slot c

structure OneInFlight (s : State nWork) : Prop where
  atMostOne : ∀ f c, s.sockets f = some c → inFlight s c ≤ 1
  ownSlot : ∀ w, EndsOnOwnSlot s (s.worker w)
  armed : ∀ f c, s.sockets f = some c → inFlight s c = 0 →
    ∃ p, s.holdsConn p c ∧ ∀ p', s.holdsConn p' c → (s.fdses p').events = pollIn

theorem open_live {s : State nWork} (table : Table host s) (inv : Slots s) {f : Int} {c : Nat}
    (opened : s.sockets f = some c) {q : Request} (out : s.outstanding q)
    (conn : q.conn = some c) : (s.fdses q.slot).fd = f := by
  rcases live_or_gone inv out with ⟨c', opened', conn', _⟩ | ⟨_, c', closed, conn'⟩
  · rw [conn] at conn'
    cases conn'
    exact table.single _ _ c opened' opened
  · rw [conn] at conn'
    cases conn'
    exact absurd closed ((table.current c).mp ⟨f, opened⟩).2

theorem same_slot {s : State nWork} (table : Table host s) (inv : Slots s) {f : Int} {c : Nat}
    (opened : s.sockets f = some c) {q q' : Request} (out : s.outstanding q)
    (out' : s.outstanding q') (conn : q.conn = some c) (conn' : q'.conn = some c) :
    q.slot = q'.slot := by
  have fd := open_live table inv opened out conn
  have fd' := open_live table inv opened out' conn'
  have valid := (table.foreign f c opened).1
  exact table.apart _ _ (inv.client q out) (inv.client q' out') (by omega) (fd.trans fd'.symm)

theorem countP_le_one {A B : Type} {P : A → Bool} {g : A → B} {l : List A}
    (distinct : (l.map g).Nodup) (same : ∀ a ∈ l, ∀ a' ∈ l, P a → P a' → g a = g a') :
    l.countP P ≤ 1 := by
  induction l with
  | nil => exact Nat.zero_le 1
  | cons a rest ih =>
    rw [List.map_cons, List.nodup_cons] at distinct
    have below := ih distinct.2 fun b m b' m' =>
      same b (List.mem_cons_of_mem a m) b' (List.mem_cons_of_mem a m')
    rw [List.countP_cons]
    split
    · rename_i here
      have alone : rest.countP P = 0 := by
        rw [List.countP_eq_zero]
        intro b member there
        have eq := same a List.mem_cons_self b (List.mem_cons_of_mem a member) here there
        exact distinct.1 (eq ▸ List.mem_map_of_mem member)
      omega
    · exact below

theorem inFlight_le_one {s : State nWork} (table : Table host s) (inv : Slots s) {f : Int} {c : Nat}
    (opened : s.sockets f = some c) : inFlight s c ≤ 1 := by
  have queue : s.toProcess.countP (fun q => q.conn = some c) ≤ 1 := by
    apply countP_le_one inv.nodup
    intro q queued q' queued' conn conn'
    exact same_slot table inv opened (Or.inl queued) (Or.inl queued') (of_decide_eq_true conn)
      (of_decide_eq_true conn')
  have holder : ∀ w, ((s.worker w).request.any fun q => q.conn = some c) = true →
      ∃ q, (s.worker w).request = some q ∧ q.conn = some c := by
    intro w held
    obtain ⟨q, eq, conn⟩ := Option.any_eq_true _ _ |>.mp held
    exact ⟨q, eq, of_decide_eq_true conn⟩
  have workers : (Finset.univ.filter fun w =>
      (s.worker w).request.any fun q => q.conn = some c).card ≤ 1 := by
    rw [Finset.card_le_one]
    intro w member w' member'
    obtain ⟨q, held, conn⟩ := holder w (Finset.mem_filter.mp member).2
    obtain ⟨q', held', conn'⟩ := holder w' (Finset.mem_filter.mp member').2
    exact inv.apart w w' q q' held held' (same_slot table inv opened (worker_outstanding held)
      (worker_outstanding held') conn conn')
  unfold inFlight
  rcases Nat.eq_zero_or_pos (s.toProcess.countP fun q => q.conn = some c) with absent | present
  · omega
  · obtain ⟨q, queued, conn⟩ := List.countP_pos_iff.mp present
    have nobody : (Finset.univ.filter fun w =>
        (s.worker w).request.any fun q => q.conn = some c).card = 0 := by
      rw [Finset.card_eq_zero, Finset.filter_eq_empty_iff]
      intro w _ held
      obtain ⟨q', held', conn'⟩ := holder w held
      exact inv.disjoint w q' q held' queued (same_slot table inv opened
        (worker_outstanding held') (Or.inl queued) conn' (of_decide_eq_true conn))
    omega

theorem none_outstanding {s : State nWork} {c : Nat} (idle : inFlight s c = 0) {q : Request}
    (out : s.outstanding q) : q.conn ≠ some c := by
  intro conn
  unfold inFlight at idle
  rcases out with queued | ⟨w, held⟩
  · have present : 0 < s.toProcess.countP fun q => q.conn = some c :=
      List.countP_pos_iff.mpr ⟨q, queued, decide_eq_true conn⟩
    omega
  · have member : w ∈ Finset.univ.filter fun w =>
        (s.worker w).request.any fun q => q.conn = some c := by
      simp [held, conn]
    have present := Finset.card_pos.mpr ⟨w, member⟩
    omega

theorem endsOnOwnSlot {s : State nWork} (inv : Slots s) (w : Fin nWork) :
    EndsOnOwnSlot s (s.worker w) := by
  cases here : s.worker w with
  | free => trivial
  | handling q sock =>
    intro readable
    obtain ⟨⟨c, opened, conn, _⟩, fd⟩ := readable_live inv here readable
    exact ⟨fd, c, conn, inv.client q (worker_outstanding (congrArg WorkerPc.request here)), opened⟩
  | rearming q gone =>
    rcases inv.rearming w q gone here with ⟨rfl, c, opened, conn, _⟩ | ⟨rfl, marked, _⟩
    · exact ⟨c, conn, inv.client q (worker_outstanding (congrArg WorkerPc.request here)), opened⟩
    · exact marked

theorem armed_of_idle {s : State nWork} (table : Table host s) (inv : Slots s) {f : Int} {c : Nat}
    (opened : s.sockets f = some c) (idle : inFlight s c = 0) :
    ∃ p, s.holdsConn p c ∧ ∀ p', s.holdsConn p' c → (s.fdses p').events = pollIn := by
  obtain ⟨p, here, fd⟩ := table.held f c opened
  refine ⟨p, ⟨here, by rw [fd, opened]⟩, ?_⟩
  rintro p' ⟨here', opened'⟩
  have valid := (table.foreign _ _ opened').1
  refine inv.armed p' here' (by omega) fun q out eq => ?_
  have missing := none_outstanding idle out
  rcases live_or_gone inv out with ⟨c', live, conn, _⟩ | ⟨marked, _⟩
  · rw [eq, opened'] at live
    exact missing (conn.trans live.symm)
  · rw [eq] at marked
    omega

theorem one_request_in_flight {s : State nWork}
    (reached : Reachable (step host) (atStart host) (Undisturbed host) s) : OneInFlight s := by
  have both : Booked host s ∧ Slots s := by
    apply reached.invariant
    · exact fun _ begin => begin ▸ ⟨⟨table_start, counted_start⟩, slots_start⟩
    · rintro s l t ⟨booked, inv⟩ undisturbed taken
      have move := move_of_step taken
      have orderly := orderly_of_undisturbed booked.table inv undisturbed move
      exact ⟨booked_step s l t booked orderly taken, slots_step booked.table inv undisturbed move⟩
  obtain ⟨booked, inv⟩ := both
  exact ⟨fun f c opened => inFlight_le_one booked.table inv opened, endsOnOwnSlot inv,
    fun f c opened idle => armed_of_idle booked.table inv opened idle⟩

theorem serve_and_rearm {s : State nWork} {w : Fin nWork} {req : Request} {sock : Int}
    (reached : Reachable (step host) (atStart host) anyStep s)
    (running : s.health = .running) (handling : s.worker w = .handling req sock)
    (readable : s.sockets sock ≠ none) :
    Reachable (step host) (atStart host) anyStep
      (rearmSlot (s.setWorker w (.rearming req false)) w req) := by
  have served := step_serve host running handling readable .served
  have running' : (s.setWorker w (.rearming req false)).health = .running := running
  have rearming : (s.setWorker w (.rearming req false)).worker w = .rearming req false := by
    simp [State.setWorker]
  exact .step (.step reached trivial served) trivial (step_rearm host running' rearming)

theorem rearmSlot_other (s : State nWork) (w : Fin nWork) (req : Request) {p : Slot}
    (other : p ≠ req.slot) : (rearmSlot s w req).fdses p = s.fdses p :=
  Function.update_of_ne other _ s.fdses

local instance workers_neZero : NeZero 4 := ⟨by decide⟩

def rearmedStale : State 4 := rearmSlot (stale.setWorker 0 (.rearming late false)) 0 late

theorem rearmedStale_reachable :
    Reachable (step busyHost) (atStart busyHost) anyStep rearmedStale := by
  have running : stale.health = .running := purged_idle.1
  have readable : stale.sockets 2006 ≠ none := by
    rw [show stale.sockets = purged.sockets from rfl, purged_sockets]
    exact Option.some_ne_none _
  have handling : stale.worker 0 = .handling late 2006 := by simp [stale, State.setWorker]
  exact serve_and_rearm stale_reachable running handling readable

theorem rearmedStale_slot : rearmedStale.fdses (1, 1998) = { fd := 2006 } := by
  have other : ((1, 1998) : Slot) ≠ late.slot := by
    intro eq
    exact absurd (congrArg Prod.snd eq) (by decide : (1998 : Nat) ≠ 1999)
  have frame : (stale.setWorker 0 (.rearming late false)).fdses = purged.fdses := rfl
  rw [rearmedStale, rearmSlot_other _ _ _ other, frame, purged_stale.1]

theorem rearmedStale_idle (c : Nat) : inFlight rearmedStale c = 0 := by
  have free : ∀ w, rearmedStale.worker w = .free := by
    intro w
    simp only [rearmedStale, rearmSlot, stale, State.setWorker, State.setSlot]
    rcases Classical.em (w = 0) with rfl | other
    · rw [Function.update_self]
    · rw [Function.update_of_ne other, Function.update_of_ne other, Function.update_of_ne other]
      exact purged_idle.2 w
  have queue : rearmedStale.toProcess = [] := rfl
  simp [inFlight, queue, free, WorkerPc.request]

/-- The purge moves the slot of a queued request, so the worker re-arms the place it was at: its
connection stays open with no request in flight and no event asked for. -/
theorem purge_disarms_connection :
    ¬ ∀ (host : Host) (s : State 4), Reachable (step host) (atStart host) anyStep s →
      OneInFlight s := by
  intro always
  have opened : rearmedStale.sockets 2006 = some 1998 := by
    rw [show rearmedStale.sockets = purged.sockets from rfl, purged_sockets]
  have size : rearmedStale.currIndexes 1 = 1999 := by
    rw [show rearmedStale.currIndexes = purged.currIndexes from rfl, purged_size]
  obtain ⟨_, _, armed⟩ :=
    (always busyHost _ rearmedStale_reachable).armed 2006 1998 opened (rearmedStale_idle 1998)
  have held : rearmedStale.holdsConn (1, 1998) 1998 := by
    refine ⟨⟨by decide, ?_⟩, by rw [rearmedStale_slot, ← opened]⟩
    dsimp only
    rw [size]
    decide
  have events := armed (1, 1998) held
  rw [rearmedStale_slot] at events
  exact absurd events (by decide)

theorem undisturbed_of_calm {host : Host} {s : State 4} {l : Label 4} (calm : Calm s l) : Undisturbed host s l := by
  cases l with
  | scan t newsock r =>
    obtain ⟨room, away⟩ := calm
    refine ⟨fun _ => ⟨room, ?_⟩, ?_⟩
    · intro w q sock handling
      have apart := away w
      rw [handling] at apart
      exact (of_decide_eq_true apart).symm
    · intro i _ _ _ w q gone rearming
      have apart := away w
      rw [rearming] at apart
      cases apart
  | purge t => exact fun full => absurd full (Nat.ne_of_lt calm)
  | poll | interrupted | take | serve | rearm => trivial

theorem first_client_one_in_flight : ∃ s : State 4,
    followIf (step busyHost) Calm (start busyHost 4) clientVisit = some s ∧ s.accepted = 1 ∧ s.closed = [0] ∧
      OneInFlight s := by
  obtain ⟨s, taken, accepted, closed, reached⟩ := visit_reachable fun s l calm => undisturbed_of_calm calm
  exact ⟨s, taken, accepted, closed, one_request_in_flight reached⟩

end Connections

import Cirrus.PrefetchRing

/-!
How large the counter of ready minibatches gets: a consumer that is slow between
its two checks lets the thread fetch three objects on top of 197 minibatches.
-/
namespace S3SparseIterator
open Transition
variable {O P : Type} {it : Iterator O P} {s : State O P}

/-- A reachable state with the ring unlocked, and what its counters are. -/
structure Snapshot (it : Iterator O P) (thread : Prefetch O P) (place : Consumer P)
    (credit count stock objects : Nat) (s : State O P) : Prop where
  reached : Reachable it.step it.AtStart anyStep s
  clear : s.racing = false
  prefetch : s.prefetch = thread
  consumer : s.consumer = place
  prefSem : s.prefSem = credit
  ready : s.numMinibatchesReady.toInt = count
  posted : s.semaphore = count
  unlocked : s.ringLock = false
  stocked : s.minibatchesList.contents.flatten.length = stock
  capacity : s.minibatchesList.capacity = 100000
  few : s.minibatchesList.size ≤ objects
  version : s.strVersion ≤ objects

variable {thread : Prefetch O P} {place : Consumer P} {credit count stock objects : Nat}

theorem exists_start (it : Iterator O P) (sequential : it.randomAccess = false) :
    ∃ s, Snapshot it .waiting .idle 1 0 0 0 s := by
  let ring : CircularBuffer (List (Minibatch P)) := .ofCapacity 100000 (by decide) fun _ => []
  have empty : ring.contents = [] := CircularBuffer.contents_ofCapacity _ _ _
  refine ⟨{ minibatchesList := ring, current := it.leftId }, .start ⟨fun _ => [], ?_⟩, rfl, rfl, rfl, rfl, rfl, rfl,
    rfl, ?_, rfl, ?_, Int.le_refl _⟩
  · simp [sequential, ring]
  · simp [empty]
  · rw [← CircularBuffer.contents_length]
    simp [empty]

namespace Snapshot

theorem wait (sequential : it.randomAccess = false) (snap : Snapshot it .waiting place 1 count stock objects s) :
    ∃ id t, Snapshot it (.fetching id) place 0 count stock objects t := by
  obtain ⟨id, current, chosen⟩ : ∃ id current, it.getObjId s.current 0 = some (id, current) := by
    simp [Iterator.getObjId, sequential]
  have taken : it.step s (.prefetch (.sample 0)) = some
      { s with prefSem := s.prefSem - 1, current, prefetch := .fetching id } := by
    simp [Iterator.step, Iterator.act, races, Iterator.threadFunction, snap.clear, snap.prefetch, snap.prefSem, chosen]
  exact ⟨id, _, .step snap.reached trivial taken, snap.clear, rfl, snap.consumer, by simp [snap.prefSem], snap.ready, snap.posted,
    snap.unlocked, snap.stocked, snap.capacity, snap.few, snap.version⟩

theorem fetch {id : UInt64} {obj : O} {positions : List P} (walked : it.starts obj = some positions)
    (distinct : it.rightId ≠ it.leftId) (away : place.accesses = false) (space : objects < 99999)
    (snap : Snapshot it (.fetching id) place credit count stock objects s) :
    ∃ t, Snapshot it (.counting 0) place credit count (stock + it.nMinibatches) (objects + 1) t := by
  have taken : follow it.step s (.prefetch (.object obj) :: List.replicate 7 (.prefetch .go)) =
      some { s with
        listStrings := Function.update s.listStrings s.strVersion (some obj)
        fetched := s.fetched ++ [(id, obj)]
        minibatchesList := s.minibatchesList.add (it.queue s.strVersion positions)
        pushed := s.pushed ++ it.queue s.strVersion positions
        ringLock := false
        prefetch := .counting 0 } := by
    have away : s.consumer.accesses = false := snap.consumer ▸ away
    simp [follow, Iterator.step, Iterator.act, races, Iterator.threadFunction, snap.clear, away, snap.prefetch, distinct, walked,
      snap.unlocked, List.replicate]
  have capacity := snap.capacity
  have few := snap.few
  have version := snap.version
  have free : s.minibatchesList.size + 1 < s.minibatchesList.capacity := by omega
  have added := s.minibatchesList.contents_add (it.queue s.strVersion positions) free
  refine ⟨_, snap.reached.follow taken, snap.clear, rfl, snap.consumer, snap.prefSem, snap.ready, snap.posted, rfl,
    ?_, ?_, ?_, ?_⟩
  · rw [added, List.flatten_append, List.length_append, snap.stocked]
    simp [queue_length walked]
  · exact capacity
  · simp only [CircularBuffer.size_add _ _ free]
    omega
  · simp only
    omega

theorem countOne {i : Nat} (more : i < it.nMinibatches) (small : count + 1 < 2 ^ 31)
    (snap : Snapshot it (.counting i) place credit count stock objects s) :
    ∃ t, Snapshot it (.counting (i + 1)) place credit (count + 1) stock objects t := by
  have taken : follow it.step s [.prefetch .go, .prefetch .go] = some { s with
      numMinibatchesReady := s.numMinibatchesReady + 1
      semaphore := semPost s.semaphore
      prefetch := .counting (i + 1) } := by
    simp [follow, Iterator.step, Iterator.act, races, Prefetch.begins, Iterator.threadFunction, snap.clear, snap.prefetch, more]
  have ready := snap.ready
  refine ⟨_, snap.reached.follow taken, snap.clear, rfl, snap.consumer, snap.prefSem, ?_, ?_, snap.unlocked, snap.stocked,
    snap.capacity, snap.few, snap.version⟩
  · rw [toInt_succ (by omega), ready]
    simp
  · simp only [snap.posted]
    exact semPost_small (by omega)

theorem countSome {i : Nat} (inside : i ≤ it.nMinibatches) (small : count + i < 2 ^ 31)
    (snap : Snapshot it (.counting 0) place credit count stock objects s) :
    ∃ t, Snapshot it (.counting i) place credit (count + i) stock objects t := by
  induction i with
  | zero => exact ⟨s, snap⟩
  | succ i ih =>
    obtain ⟨t, before⟩ := ih (by omega) (by omega)
    exact before.countOne inside (by omega)

theorem countAll (small : count + it.nMinibatches < 2 ^ 31) (space : objects < 99999)
    (snap : Snapshot it (.counting 0) place credit count stock objects s) :
    ∃ t, Snapshot it .waiting place credit (count + it.nMinibatches) stock (objects + 1) t := by
  obtain ⟨t, counted⟩ := snap.countSome (Nat.le_refl _) small
  have version := counted.version
  have few := counted.few
  have early : t.strVersion < intMax := by
    unfold intMax
    omega
  have taken : follow it.step t [.prefetch .go, .prefetch .go] = some { t with
      strVersion := t.strVersion + 1
      prefetch := .waiting } := by
    simp [follow, Iterator.step, Iterator.act, races, Prefetch.begins, Iterator.threadFunction, counted.clear, counted.prefetch,
      early]
  refine ⟨_, counted.reached.follow taken, counted.clear, rfl, counted.consumer, counted.prefSem, counted.ready, counted.posted,
    counted.unlocked, counted.stocked, counted.capacity, ?_, ?_⟩
  · simp only
    omega
  · simp only
    omega

theorem discards {queues : List (List (Minibatch P))} (reached : Reachable it.step it.AtStart anyStep s)
    (clear : s.racing = false) (here : s.consumer = .discarding) (contents : s.minibatchesList.contents = queues) (some_left : queues.flatten ≠ []) :
    ∃ ret ring, Reachable it.step it.AtStart anyStep { s with minibatchesList := ring, consumer := .counting ret } ∧
      ring.contents.flatten.length + 1 = queues.flatten.length ∧ ring.capacity = s.minibatchesList.capacity ∧
      ring.size ≤ s.minibatchesList.size := by
  induction queues generalizing s with
  | nil => simp at some_left
  | cons first rest ih =>
    have front := CircularBuffer.first_of_contents _ contents
    cases first with
    | nil =>
      obtain ⟨popped, shorter⟩ := CircularBuffer.pop_of_contents _ contents
      have taken : it.step s .consumer = some { s with minibatchesList := s.minibatchesList.advance } := by
        simp [Iterator.step, Iterator.act, races, getNext, clear, here, takeFront, front, popped]
      obtain ⟨ret, ring, after, length, capacity, size⟩ := ih (.step reached trivial taken) clear here shorter (by simpa using some_left)
      refine ⟨ret, ring, after, by simpa using length, capacity, ?_⟩
      have fewer := s.minibatchesList.size_advance (by
        rw [← CircularBuffer.contents_length, contents]
        simp)
      simp only at size
      omega
    | cons ret queue =>
      have taken : it.step s .consumer = some
          { s with minibatchesList := s.minibatchesList.setFirst queue, consumer := .counting ret } := by
        simp [Iterator.step, Iterator.act, races, getNext, clear, here, takeFront, front]
      have left := s.minibatchesList.contents_setFirst queue contents
      exact ⟨ret, _, .step reached trivial taken, by simp [left], rfl, Nat.le_refl _⟩

theorem counted {ret : Minibatch P} (clear : s.racing = false) (here : s.consumer = .counting ret) :
    follow it.step s [.consumer, .consumer, .consumer] = some { s with
      numMinibatchesReady := s.numMinibatchesReady - 1
      ringLock := false
      toDelete := ret.isLast
      consumer := .checkingReady ret } := by
  simp [follow, Iterator.step, Iterator.act, races, getNext, clear, here]

theorem enter (snap : Snapshot it thread .idle credit (count + 1) stock objects s) (away : thread.accesses = false) :
    ∃ strings, Reachable it.step it.AtStart anyStep { s with
      listStrings := strings
      semaphore := s.semaphore - 1
      ringLock := true
      consumer := .discarding } := by
  have away : s.prefetch.accesses = false := snap.prefetch ▸ away
  by_cases keeps : s.toDelete = -1
  · have taken : follow it.step s [.consumer, .consumer, .consumer] = some { s with
        semaphore := s.semaphore - 1
        ringLock := true
        consumer := .discarding } := by
      simp [follow, Iterator.step, Iterator.act, races, getNext, snap.clear, snap.consumer, snap.posted, snap.unlocked, keeps]
    exact ⟨s.listStrings, snap.reached.follow taken⟩
  · have taken : follow it.step s [.consumer, .consumer, .consumer, .consumer] = some { s with
        listStrings := Function.update s.listStrings s.toDelete none
        semaphore := s.semaphore - 1
        ringLock := true
        consumer := .discarding } := by
      simp [follow, Iterator.step, Iterator.act, races, getNext, snap.clear, away, snap.consumer, snap.posted, snap.unlocked, keeps]
    exact ⟨_, snap.reached.follow taken⟩

theorem take (snap : Snapshot it thread .idle credit (count + 1) stock objects s) (away : thread.accesses = false)
    (some_left : 0 < stock) (small : count < 2 ^ 31) :
    ∃ ret t, Snapshot it thread (.checkingReady ret) credit count (stock - 1) objects t := by
  obtain ⟨strings, entered⟩ := snap.enter away
  have stocked := snap.stocked
  obtain ⟨ret, ring, after, length, capacity, size⟩ := discards entered snap.clear rfl rfl (by
    intro none
    simp [none] at stocked
    omega)
  have ready := snap.ready
  have few := snap.few
  refine ⟨ret, _, after.follow (counted snap.clear rfl), snap.clear, snap.prefetch, rfl, snap.prefSem, ?_, ?_, rfl, ?_,
    ?_, ?_, snap.version⟩
  · simp only
    rw [toInt_pred (by omega), ready]
    simp
  · simp [snap.posted]
  · simp only at length ⊢
    omega
  · simp only [capacity, snap.capacity]
  · simp only at size ⊢
    omega

theorem enough {ret : Minibatch P} (many : 200 ≤ count)
    (snap : Snapshot it thread (.checkingReady ret) credit count stock objects s) :
    ∃ t, Snapshot it thread .idle credit count stock objects t := by
  have ready := snap.ready
  have check : ¬ s.numMinibatchesReady < 200 := by
    rw [Int32.lt_iff_toInt_lt, ready, show (200 : Int32).toInt = 200 by decide]
    omega
  have taken : follow it.step s [.consumer, .consumer] = some { s with
      returned := s.returned ++ [(s.listStrings ret.version, ret)]
      consumer := .idle } := by
    simp [follow, Iterator.step, Iterator.act, races, getNext, snap.clear, snap.consumer, check]
  exact ⟨_, snap.reached.follow taken, snap.clear, snap.prefetch, rfl, snap.prefSem, ready, snap.posted, snap.unlocked,
    snap.stocked, snap.capacity, snap.few, snap.version⟩

theorem fewReady {ret : Minibatch P} (few : count < 200)
    (snap : Snapshot it thread (.checkingReady ret) credit count stock objects s) :
    ∃ t, Snapshot it thread (.checkingSem ret) credit count stock objects t := by
  have ready := snap.ready
  have check : s.numMinibatchesReady < 200 := by
    rw [Int32.lt_iff_toInt_lt, ready, show (200 : Int32).toInt = 200 by decide]
    omega
  have taken : it.step s .consumer = some { s with consumer := .checkingSem ret } := by
    simp [Iterator.step, Iterator.act, races, getNext, snap.clear, snap.consumer, check]
  exact ⟨_, .step snap.reached trivial taken, snap.clear, snap.prefetch, rfl, snap.prefSem, ready, snap.posted, snap.unlocked,
    snap.stocked, snap.capacity, snap.few, snap.version⟩

theorem signal {ret : Minibatch P} (snap : Snapshot it thread (.checkingSem ret) 0 count stock objects s) :
    ∃ t, Snapshot it thread .idle 1 count stock objects t := by
  have taken : follow it.step s [.consumer, .consumer, .consumer] = some { s with
      prefSem := semPost s.prefSem
      returned := s.returned ++ [(s.listStrings ret.version, ret)]
      consumer := .idle } := by
    simp [follow, Iterator.step, Iterator.act, races, getNext, snap.clear, snap.consumer, snap.prefSem, readAhead]
  exact ⟨_, snap.reached.follow taken, snap.clear, snap.prefetch, rfl, by simp [snap.prefSem, semPost], snap.ready, snap.posted,
    snap.unlocked, snap.stocked, snap.capacity, snap.few, snap.version⟩

theorem drain {calls : Nat} (snap : Snapshot it thread .idle credit (200 + calls) (200 + calls) objects s)
    (away : thread.accesses = false) (small : 200 + calls < 2 ^ 31) : ∃ t, Snapshot it thread .idle credit 200 200 objects t := by
  induction calls generalizing s with
  | zero => exact ⟨s, snap⟩
  | succ calls ih =>
    rw [← Nat.add_assoc] at snap small
    obtain ⟨ret, _, taken⟩ := snap.take away (by omega) (by omega)
    obtain ⟨t, after⟩ := taken.enough (by omega)
    exact ih after (by omega)

theorem credited (snap : Snapshot it thread .idle 0 (count + 1) stock objects s) (away : thread.accesses = false)
    (some_left : 0 < stock) (few : count < 200) : ∃ t, Snapshot it thread .idle 1 count (stock - 1) objects t := by
  obtain ⟨ret, _, taken⟩ := snap.take away some_left (by omega)
  obtain ⟨_, checked⟩ := taken.fewReady few
  exact checked.signal

end Snapshot

variable {obj : O} {positions : List P}

/-- Three objects and 197 minibatches are under way, and the counter has taken in
all that fit in an `int`. -/
theorem counter_fills (walked : it.starts obj = some positions) (distinct : it.rightId ≠ it.leftId)
    (sequential : it.randomAccess = false) (large : 2 ^ 31 ≤ 3 * it.nMinibatches + 197)
    (small : 2 * it.nMinibatches + 197 < 2 ^ 31) :
    ∃ i stock objects s, i < it.nMinibatches ∧ Snapshot it (.counting i) .idle 0 (2 ^ 31 - 1) stock objects s := by
  obtain ⟨n, size⟩ : ∃ n, it.nMinibatches = n := ⟨_, rfl⟩
  rw [size] at large small
  -- the first object, and the calls that ask for no other
  obtain ⟨_, start⟩ := exists_start it sequential
  obtain ⟨id, _, waited⟩ := start.wait sequential
  obtain ⟨_, fetched⟩ := waited.fetch walked distinct rfl (by omega)
  obtain ⟨_, first⟩ := fetched.countAll (by omega) (by omega)
  rw [size, show 0 + n = 200 + (n - 200) by omega] at first
  obtain ⟨_, drained⟩ := first.drain rfl (by omega)
  -- a second object is asked for and on its way when a third is asked for
  obtain ⟨_, asked⟩ := drained.credited rfl (by omega) (by omega)
  obtain ⟨id, _, waited⟩ := asked.wait sequential
  obtain ⟨_, asked⟩ := waited.credited rfl (by omega) (by omega)
  obtain ⟨_, second⟩ := asked.fetch walked distinct rfl (by omega)
  -- a call has seen few minibatches ready, and gives its credit after the third is on its way
  obtain ⟨ret, _, taken⟩ := second.take rfl (by omega) (by omega)
  obtain ⟨_, seen⟩ := taken.fewReady (by omega)
  obtain ⟨_, counted⟩ := seen.countAll (by omega) (by omega)
  obtain ⟨id, _, waited⟩ := counted.wait sequential
  obtain ⟨_, asked⟩ := waited.signal
  obtain ⟨_, third⟩ := asked.fetch walked distinct rfl (by omega)
  obtain ⟨_, counted⟩ := third.countAll (by omega) (by omega)
  obtain ⟨id, _, waited⟩ := counted.wait sequential
  obtain ⟨_, fourth⟩ := waited.fetch walked distinct rfl (by omega)
  obtain ⟨s, full⟩ := fourth.countSome (i := 2 ^ 31 - 1 - (197 + n + n)) (by omega) (by omega)
  rw [size, show 197 + n + n + (2 ^ 31 - 1 - (197 + n + n)) = 2 ^ 31 - 1 by omega] at full
  exact ⟨_, _, _, s, by omega, full⟩

theorem counter_overflows (walked : it.starts obj = some positions) (distinct : it.rightId ≠ it.leftId)
    (sequential : it.randomAccess = false) (large : 2 ^ 31 ≤ 3 * it.nMinibatches + 197)
    (small : 2 * it.nMinibatches + 197 < 2 ^ 31) :
    ∃ s, Reachable it.step it.AtStart Apart s ∧ s.numMinibatchesReady.toInt < 0 := by
  obtain ⟨i, stock, objects, s, inside, full⟩ := counter_fills walked distinct sequential large small
  have taken : it.step s (.prefetch .go) = some
      { s with numMinibatchesReady := s.numMinibatchesReady + 1, prefetch := .posting i } := by
    simp [Iterator.step, Iterator.act, races, Prefetch.begins, Iterator.threadFunction, full.clear, full.prefetch, inside]
  refine ⟨_, apart_of_clear (.step full.reached trivial taken) full.clear, ?_⟩
  simp only
  rw [Int32.toInt_add, full.ready]
  decide

theorem ready_becomes_negative : (rowByRow 715827817).minibatchRows ≤ (rowByRow 715827817).s3Rows ∧
    ∃ s, Reachable (rowByRow 715827817).step (rowByRow 715827817).AtStart Apart s ∧
      s.numMinibatchesReady.toInt < 0 ∧ ¬ Delivers (rowByRow 715827817) s := by
  have size : (rowByRow 715827817).nMinibatches = 715827817 := by decide
  obtain ⟨s, reached, negative⟩ := counter_overflows
    (rfl : (rowByRow 715827817).starts () = some _) (by decide) rfl (by omega) (by omega)
  refine ⟨by decide, s, reached, negative, ?_⟩
  intro delivers
  have ready := delivers.ready
  omega

/-- Both parts of the condition are needed: in a run of an object with one minibatch the accesses
to the map overlap, and in one where they do not the counter of ready minibatches overflows. -/
theorem overlaps_and_overflows :
    (∃ s, Reachable (rowByRow 1).step (rowByRow 1).AtStart anyStep s ∧ ¬ Delivers (rowByRow 1) s) ∧
    (∃ s, Reachable (rowByRow 715827817).step (rowByRow 715827817).AtStart Apart s ∧
      ¬ Delivers (rowByRow 715827817) s) := by
  obtain ⟨s, overlapping, _, _, races⟩ := accesses_overlap
  obtain ⟨_, t, overflowing, _, overflows⟩ := ready_becomes_negative
  exact ⟨⟨s, overlapping, races⟩, ⟨t, overflowing, overflows⟩⟩

end S3SparseIterator

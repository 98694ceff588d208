import Cirrus.Lib.Words
import Cirrus.LibsvmCounts

/-!
When `S3IteratorLibsvm` deadlocks. A range that contributes no minibatch spends
a credit that no call of `getNext` gives back, so the two threads wait for each
other as soon as such a range is fetched after the last minibatch was taken.
-/
namespace S3IteratorLibsvm
open Transition SparseLR
open S3SparseIterator (semPost readAhead toInt_succ toInt_pred semPost_small)
variable {F : Type} {it : Iterator F} {s : State F}

/-- The texts that the thread can have fetched, and `cur_index` afterwards. -/
inductive Fetches (it : Iterator F) : List (List Char) → UInt64 → Prop where
  | start : Fetches it [] 0
  | fetch {texts : List (List Char)} {text : List Char} {curIndex after : UInt64} {sampled : Int32} {range : Range}
      (before : Fetches it texts curIndex) (chosen : it.getFileRange curIndex sampled = some (range, after))
      (got : it.s3GetObjectRange range = some text) : Fetches it (texts ++ [text]) after

def WellFormed (file : List Char) : Prop := ∃ lines : List Line, file = textOf lines ∨ file ++ ['\n'] = textOf lines

/-- As long as the parser gets through all texts, each has more newlines than a minibatch has rows. -/
def Ample (it : Iterator F) : Prop :=
  ∀ texts curIndex, Fetches it texts curIndex → (∀ text ∈ texts, Readable text) →
    ∀ text ∈ texts, it.minibatchRows.toNat < text.count '\n'

section Texts

theorem getFileRange_width {curIndex after : UInt64} {sampled : Int32} {range : Range}
    (chosen : it.getFileRange curIndex sampled = some (range, after)) :
    range.2.toNat ≤ range.1.toNat + fetchSize.toNat := by
  have wraps : ∀ left : UInt64, (left + fetchSize).toNat ≤ left.toNat + fetchSize.toNat := by
    intro left
    rw [UInt64.toNat_add]
    exact Nat.mod_le _ _
  unfold Iterator.getFileRange at chosen
  split at chosen
  next small =>
    cases chosen
    have := UInt64.lt_iff_toNat_lt.mp small
    show it.fileSize.toNat ≤ (0 : UInt64).toNat + fetchSize.toNat
    omega
  next =>
    split at chosen
    next =>
      split at chosen
      next =>
        cases chosen
        exact wraps _
      next => cases chosen
    next =>
      cases chosen
      rw [Words.toNat_min]
      exact Nat.le_trans (Nat.min_le_left _ _) (wraps _)

theorem s3GetObjectRange_length {curIndex after : UInt64} {sampled : Int32} {range : Range} {text : List Char}
    (chosen : it.getFileRange curIndex sampled = some (range, after)) (got : it.s3GetObjectRange range = some text) :
    text <:+: it.file ∧ text.length ≤ most := by
  have width := getFileRange_width chosen
  unfold Iterator.s3GetObjectRange at got
  split at got
  next =>
    cases got
    constructor
    · exact (List.take_prefix _ _).isInfix.trans (List.drop_suffix _ _).isInfix
    · have size : fetchSize.toNat = 10485760 := rfl
      rw [List.length_take]
      unfold most
      omega
  next => cases got

theorem Fetches.text {texts : List (List Char)} {curIndex : UInt64} (fetches : Fetches it texts curIndex) :
    ∀ text ∈ texts, text <:+: it.file ∧ text.length ≤ most := by
  induction fetches with
  | start => nofun
  | fetch before chosen got ih =>
    intro text member
    rcases List.mem_append.mp member with earlier | last
    · exact ih text earlier
    · rw [List.mem_singleton.mp last]
      exact s3GetObjectRange_length chosen got

theorem parse_of_wellFormed (wellFormed : WellFormed it.file) {text : List Char} (inside : text <:+: it.file) :
    (Readable text ∧ ∃ dataset, it.parseObjLibsvm text = .ok dataset ∧
      dataset.length = (text.count '\n' - 1) / it.rows) ∨
    (¬ Readable text ∧ ∃ what, it.parseObjLibsvm text = .error (.exception what)) := by
  obtain ⟨lines, whole⟩ := wellFormed
  have begins : it.file <+: textOf lines := by
    rcases whole with same | more
    · exact same ▸ List.prefix_rfl
    · exact more ▸ List.prefix_append _ _
  rcases it.parse_text (inside.trans begins.isInfix) with ⟨readable, part, _, count, parsed⟩ | unreadable
  · refine .inl ⟨readable, _, parsed, ?_⟩
    rw [Parser.minibatchesOf_length, count, Nat.add_sub_cancel]
  · exact .inr unreadable

end Texts

section Safe

def Chained (it : Iterator F) (s : State F) : Prop :=
  match s.prefetch with
  | .fetching range => ∃ before sampled, Fetches it s.texts before ∧
      it.getFileRange before sampled = some (range, s.curIndex)
  | _ => Fetches it s.texts s.curIndex

def AllRead (s : State F) : Prop :=
  match s.prefetch with
  | .pushing text => ∃ before, s.texts = before ++ [text] ∧ ∀ text ∈ before, Readable text
  | _ => ∀ text ∈ s.texts, Readable text

structure Progress (it : Iterator F) (s : State F) : Prop where
  counts : Counts s
  chained : Chained it s
  read : AllRead s

theorem pushing_readable (wellFormed : WellFormed it.file) (progress : Progress it s) {text : List Char}
    {dataset : List (SparseDataset F)} (here : s.prefetch = .pushing text)
    (parsed : it.parseObjLibsvm text = .ok dataset) :
    Fetches it s.texts s.curIndex ∧ text ∈ s.texts ∧ (∀ text ∈ s.texts, Readable text) ∧
      dataset.length = (text.count '\n' - 1) / it.rows := by
  obtain ⟨_, chained, read⟩ := progress
  simp only [Chained, AllRead, here] at chained read
  obtain ⟨before, texts, readable⟩ := read
  have member : text ∈ s.texts := by simp [texts]
  rcases parse_of_wellFormed wellFormed (chained.text text member).1 with ⟨this, dataset', parsed', count⟩ | ⟨_, what, failed⟩
  · rw [parsed] at parsed'
    cases parsed'
    refine ⟨chained, member, ?_, count⟩
    intro other among
    rw [texts, List.mem_append, List.mem_singleton] at among
    rcases among with earlier | rfl
    · exact readable other earlier
    · exact this
  · rw [parsed] at failed
    cases failed

theorem contributes (wellFormed : WellFormed it.file) (ample : Ample it) (progress : Progress it s) : Contributes it s := by
  intro text dataset here parsed
  obtain ⟨fetches, member, readable, count⟩ := pushing_readable wellFormed progress here parsed
  have enough := ample _ _ fetches readable text member
  have length := (fetches.text text member).2
  have newlines : text.count '\n' ≤ text.length := List.count_le_length
  constructor
  · rw [count]
    exact Nat.div_pos (show it.minibatchRows.toNat ≤ _ by omega) it.rows_pos
  · have quotient := Nat.div_le_self (text.count '\n' - 1) it.rows
    omega

theorem progress_thread {t : State F} (wellFormed : WellFormed it.file) (ample : Ample it) (progress : Progress it s)
    (move : ThreadMove it s t) : Progress it t := by
  have counts := counts_thread progress.counts (contributes wellFormed ample progress) move
  obtain ⟨_, chained, read⟩ := id progress
  cases move with
  | @wait sampled range curIndex here credit chosen =>
    simp only [Chained, AllRead, here] at chained read
    exact ⟨counts, ⟨_, sampled, chained, chosen⟩, read⟩
  | retry here => exact progress
  | fetch here got =>
    simp only [Chained, AllRead, here] at chained read
    obtain ⟨before, sampled, fetches, chosen⟩ := chained
    exact ⟨counts, fetches.fetch chosen got, _, rfl, read⟩
  | parse here parsed =>
    obtain ⟨fetches, _, readable, _⟩ := pushing_readable wellFormed progress here parsed
    exact ⟨counts, fetches, readable⟩
  | throw here failed => exact ⟨counts, chained, read⟩
  | lock here free =>
    simp only [Chained, AllRead, here] at chained read
    exact ⟨counts, chained, read⟩
  | add here | unlock here | counted here | count here | post here =>
    simp only [Chained, AllRead, here] at chained read
    exact ⟨counts, chained, read⟩

theorem progress_getNext {t : State F} (progress : Progress it s) (move : GetNextMove s t) : Progress it t := by
  have counts := counts_getNext progress.counts move
  obtain ⟨_, chained, read⟩ := progress
  cases move <;> exact ⟨counts, chained, read⟩

theorem progress_reachable (wellFormed : WellFormed it.file) (ample : Ample it)
    (reached : Reachable it.step AtStart anyStep s) : Progress it s := by
  apply reached.invariant
  · intro s start
    have counts := counts_start start
    obtain ⟨garbage, rfl⟩ := start
    refine ⟨counts, .start, ?_⟩
    intro text fetched
    cases fetched
  · intro s l t progress _ taken
    rcases (step_moves taken).2 with thread | consumer
    · exact progress_thread wellFormed ample progress thread
    · exact progress_getNext progress consumer

end Safe

section Runs

/-- A reachable state outside of `getNext`, with the ring unlocked. -/
structure Snapshot (it : Iterator F) (thread : Prefetch F) (credit count : Nat)
    (queues : List (List (SparseDataset F))) (curIndex : UInt64) (s : State F) : Prop where
  reached : Reachable it.step AtStart anyStep s
  running : s.terminated = false
  prefetch : s.prefetch = thread
  consumer : s.consumer = .idle
  prefSem : s.prefSem = credit
  ready : s.numMinibatchesReady.toInt = count
  posted : s.semaphore = count
  unlocked : s.ringLock = false
  queues : s.minibatchesList.contents = queues
  capacity : s.minibatchesList.capacity = 100000
  position : s.curIndex = curIndex

variable {thread : Prefetch F} {credit count : Nat} {queues : List (List (SparseDataset F))} {curIndex after : UInt64}

theorem exists_start (it : Iterator F) : ∃ s, Snapshot it .waiting 1 0 [] 0 s := by
  let ring : CircularBuffer (List (SparseDataset F)) := .ofCapacity 100000 (by decide) fun _ => []
  have empty : ring.contents = [] := CircularBuffer.contents_ofCapacity _ _ _
  exact ⟨{ minibatchesList := ring }, .start ⟨fun _ => [], rfl⟩, rfl, rfl, rfl, rfl, rfl, rfl, rfl, empty, rfl, rfl⟩

namespace Snapshot

theorem fetch {sampled : Int32} {range : Range} {text : List Char} {dataset : List (SparseDataset F)}
    (snap : Snapshot it .waiting 1 count queues curIndex s) (few : queues.length < 99999)
    (chosen : it.getFileRange curIndex sampled = some (range, after)) (got : it.s3GetObjectRange range = some text)
    (parsed : it.parseObjLibsvm text = .ok dataset) :
    ∃ t, Snapshot it (.counting dataset.length) 0 count (queues ++ [dataset]) after t := by
  rw [← snap.position] at chosen
  have taken : follow it.step s [.prefetch (.sample sampled), .prefetch .go, .prefetch .go, .prefetch .go, .prefetch .go,
      .prefetch .go] = some { s with
        prefSem := 0
        curIndex := after
        texts := s.texts ++ [text]
        minibatchesList := s.minibatchesList.add dataset
        pushed := s.pushed ++ dataset
        ringLock := false
        prefetch := .counting dataset.length } := by
    simp [follow, Iterator.step, Iterator.threadFunction, snap.running, snap.prefetch, snap.prefSem, chosen, got, parsed,
      snap.unlocked]
  have free : s.minibatchesList.size + 1 < s.minibatchesList.capacity := by
    rw [← CircularBuffer.contents_length, snap.queues, snap.capacity]
    omega
  have added := s.minibatchesList.contents_add dataset free
  rw [snap.queues] at added
  exact ⟨_, snap.reached.follow taken, snap.running, rfl, snap.consumer, rfl, snap.ready, snap.posted, rfl, added,
    snap.capacity, rfl⟩

theorem countAll {left : Nat} (small : count + left < 2147483647)
    (snap : Snapshot it (.counting left) credit count queues curIndex s) :
    ∃ t, Snapshot it .waiting credit (count + left) queues curIndex t := by
  induction left generalizing count s with
  | zero =>
    have taken : it.step s (.prefetch .go) = some { s with prefetch := .waiting } := by
      simp [Iterator.step, Iterator.threadFunction, snap.running, snap.prefetch]
    exact ⟨_, .step snap.reached trivial taken, snap.running, rfl, snap.consumer, snap.prefSem, snap.ready, snap.posted,
      snap.unlocked, snap.queues, snap.capacity, snap.position⟩
  | succ left ih =>
    have taken : follow it.step s [.prefetch .go, .prefetch .go] = some { s with
        numMinibatchesReady := s.numMinibatchesReady + 1
        semaphore := semPost s.semaphore
        prefetch := .counting left } := by
      simp [follow, Iterator.step, Iterator.threadFunction, snap.running, snap.prefetch]
    have ready := snap.ready
    have posted := snap.posted
    have one : Snapshot it (.counting left) credit (count + 1) queues curIndex { s with
        numMinibatchesReady := s.numMinibatchesReady + 1
        semaphore := semPost s.semaphore
        prefetch := .counting left } := by
      refine ⟨snap.reached.follow taken, snap.running, rfl, snap.consumer, snap.prefSem, ?_, ?_, snap.unlocked,
        snap.queues, snap.capacity, snap.position⟩
      · rw [toInt_succ (by omega), ready]
        simp
      · rw [← posted]
        exact semPost_small (by omega)
    obtain ⟨t, all⟩ := ih (by omega) one
    rw [Nat.add_right_comm] at all
    exact ⟨t, all⟩

theorem discardAll {junk : List (List (SparseDataset F))} (empty : ∀ queue ∈ junk, queue = [])
    {front : List (SparseDataset F)} {ret : SparseDataset F} (running : s.terminated = false)
    (reached : Reachable it.step AtStart anyStep s) (here : s.consumer = .discarding)
    (capacity : s.minibatchesList.capacity = 100000) (queues : s.minibatchesList.contents = junk ++ [front ++ [ret]]) :
    ∃ ring : CircularBuffer (List (SparseDataset F)), ring.contents = [front] ∧ ring.capacity = 100000 ∧
      Reachable it.step AtStart anyStep { s with minibatchesList := ring, consumer := .counting ret } := by
  induction junk generalizing s with
  | nil =>
    have first := s.minibatchesList.first_of_contents queues
    have taken : it.step s .consumer = some
        { s with minibatchesList := s.minibatchesList.setFirst front, consumer := .counting ret } := by
      simp [Iterator.step, getNext, takeBack, running, here, first]
    exact ⟨_, s.minibatchesList.contents_setFirst front queues, capacity, .step reached trivial taken⟩
  | cons queue junk ih =>
    obtain ⟨rfl, others⟩ := List.forall_mem_cons.mp empty
    have first := s.minibatchesList.first_of_contents queues
    obtain ⟨popped, rest⟩ := s.minibatchesList.pop_of_contents queues
    have taken : it.step s .consumer = some { s with minibatchesList := s.minibatchesList.advance } := by
      simp [Iterator.step, getNext, takeBack, running, here, first, popped]
    exact ih others (s := { s with minibatchesList := s.minibatchesList.advance }) running
      (.step reached trivial taken) here capacity rest

theorem leave {ret : SparseDataset F} (reached : Reachable it.step AtStart anyStep s) (running : s.terminated = false)
    (here : s.consumer = .counting ret) (one : s.prefSem ≤ 1) :
    ∃ credit, credit ≤ 1 ∧ (s.numMinibatchesReady - 1 < 200 → credit = 1) ∧
      Reachable it.step AtStart anyStep { s with
        numMinibatchesReady := s.numMinibatchesReady - 1
        ringLock := false
        prefSem := credit
        returned := s.returned ++ [ret]
        consumer := .idle } := by
  by_cases few : s.numMinibatchesReady - 1 < 200
  · by_cases none : s.prefSem = 0
    · have taken : follow it.step s [.consumer, .consumer, .consumer, .consumer, .consumer] = some { s with
          numMinibatchesReady := s.numMinibatchesReady - 1
          ringLock := false
          prefSem := semPost 0
          returned := s.returned ++ [ret]
          consumer := .idle } := by
        simp [follow, Iterator.step, getNext, running, here, few, none, readAhead]
      exact ⟨1, Nat.le_refl 1, fun _ => rfl, reached.follow taken⟩
    · have taken : follow it.step s [.consumer, .consumer, .consumer, .consumer] = some { s with
          numMinibatchesReady := s.numMinibatchesReady - 1
          ringLock := false
          returned := s.returned ++ [ret]
          consumer := .idle } := by
        simp [follow, Iterator.step, getNext, running, here, few, none, readAhead]
      exact ⟨s.prefSem, one, fun _ => by omega, reached.follow taken⟩
  · have taken : follow it.step s [.consumer, .consumer, .consumer] = some { s with
        numMinibatchesReady := s.numMinibatchesReady - 1
        ringLock := false
        returned := s.returned ++ [ret]
        consumer := .idle } := by
      simp [follow, Iterator.step, getNext, running, here, few]
    exact ⟨s.prefSem, one, fun small => (few small).elim, reached.follow taken⟩

theorem takeOne {junk : List (List (SparseDataset F))} (empty : ∀ queue ∈ junk, queue = [])
    {front : List (SparseDataset F)} {ret : SparseDataset F} (one : credit ≤ 1)
    (snap : Snapshot it .waiting credit (count + 1) (junk ++ [front ++ [ret]]) curIndex s) :
    ∃ credit t, Snapshot it .waiting credit count [front] curIndex t ∧ credit ≤ 1 ∧ (count < 200 → credit = 1) := by
  have entered : follow it.step s [.consumer, .consumer, .consumer] = some
      { s with semaphore := count, ringLock := true, consumer := .discarding } := by
    simp [follow, Iterator.step, getNext, snap.running, snap.consumer, snap.posted, snap.unlocked]
  obtain ⟨ring, contents, capacity, reached⟩ := discardAll empty
    (s := { s with semaphore := count, ringLock := true, consumer := .discarding }) snap.running
    (snap.reached.follow entered) rfl snap.capacity snap.queues
  obtain ⟨credit', one', few, reached⟩ := leave reached snap.running rfl (snap.prefSem ▸ one)
  have ready := snap.ready
  have fewer : (s.numMinibatchesReady - 1).toInt = count := by
    rw [toInt_pred (by omega), ready]
    simp
  refine ⟨credit', _, ⟨reached, snap.running, snap.prefetch, rfl, rfl, fewer, rfl, rfl, contents, capacity, snap.position⟩,
    one', fun small => few ?_⟩
  rw [Int32.lt_iff_toInt_lt, fewer]
  show (count : Int) < 200
  omega

theorem takeAll {junk : List (List (SparseDataset F))} (empty : ∀ queue ∈ junk, queue = [])
    {dataset : List (SparseDataset F)} (some_left : dataset ≠ []) (one : credit ≤ 1)
    (snap : Snapshot it .waiting credit dataset.length (junk ++ [dataset]) curIndex s) :
    ∃ t, Snapshot it .waiting 1 0 [[]] curIndex t := by
  induction dataset using List.reverseRecOn generalizing junk credit s with
  | nil => exact (some_left rfl).elim
  | append_singleton front ret ih =>
    rw [List.length_append, List.length_singleton] at snap
    obtain ⟨credit', t, later, one', few⟩ := takeOne empty one snap
    by_cases last : front = []
    · subst last
      obtain rfl := few (by simp)
      exact ⟨t, later⟩
    · exact ih (nofun : ∀ queue ∈ ([] : List (List (SparseDataset F))), queue = []) last one' later

theorem deadlock (empty : ∀ queue ∈ queues, queue = []) (snap : Snapshot it .waiting 0 0 queues curIndex s) :
    ∃ t, Reachable it.step AtStart anyStep t ∧ Deadlocked t := by
  have taken : it.step s .consumer = some { s with consumer := .waiting } := by
    simp [Iterator.step, getNext, snap.running, snap.consumer]
  refine ⟨_, .step snap.reached trivial taken, snap.running, rfl, snap.posted, snap.prefetch, snap.prefSem, ?_⟩
  show s.minibatchesList.contents.flatten = []
  rw [snap.queues]
  exact List.flatten_eq_nil_iff.mpr empty

end Snapshot

/-- A consumer that takes all minibatches of each range before the next one is fetched. -/
theorem drained_or_deadlock (wellFormed : WellFormed it.file) {texts : List (List Char)} (fetches : Fetches it texts curIndex)
    (readable : ∀ text ∈ texts, Readable text) :
    ((∀ text ∈ texts, it.rows < text.count '\n') ∧
      ∃ s queues, (∀ queue ∈ queues, queue = []) ∧ queues.length ≤ 1 ∧ Snapshot it .waiting 1 0 queues curIndex s) ∨
    ∃ s, Reachable it.step AtStart anyStep s ∧ Deadlocked s := by
  induction fetches with
  | start =>
    obtain ⟨s, snap⟩ := exists_start it
    exact .inl ⟨nofun, s, [], nofun, Nat.zero_le 1, snap⟩
  | @fetch texts text curIndex after sampled range before chosen got ih =>
    rw [List.forall_mem_append, List.forall_mem_singleton] at readable
    rcases ih readable.1 with ⟨enough, s, queues, empty, few, snap⟩ | deadlocked
    · obtain ⟨inside, short⟩ := s3GetObjectRange_length chosen got
      rcases parse_of_wellFormed wellFormed inside with ⟨_, dataset, parsed, count⟩ | ⟨unreadable, _⟩
      · have newlines : text.count '\n' ≤ text.length := List.count_le_length
        have quotient := Nat.div_le_self (text.count '\n' - 1) it.rows
        obtain ⟨t, fetched⟩ := snap.fetch (by omega) chosen got parsed
        obtain ⟨u, counted⟩ := fetched.countAll (by unfold most at short; omega)
        rw [Nat.zero_add] at counted
        by_cases contributes : it.rows < text.count '\n'
        · left
          have positive := it.rows_pos
          have some_dataset : dataset ≠ [] := by
            apply List.ne_nil_of_length_pos
            rw [count]
            exact Nat.div_pos (by omega) positive
          obtain ⟨v, drained⟩ := counted.takeAll empty some_dataset (Nat.zero_le 1)
          refine ⟨?_, v, [[]], by simp, Nat.le_refl 1, drained⟩
          rw [List.forall_mem_append, List.forall_mem_singleton]
          exact ⟨enough, contributes⟩
        · right
          have positive := it.rows_pos
          have no_dataset : dataset = [] := by
            apply List.eq_nil_of_length_eq_zero
            rw [count]
            exact Nat.div_eq_of_lt (by omega)
          subst no_dataset
          apply counted.deadlock
          rw [List.forall_mem_append, List.forall_mem_singleton]
          exact ⟨empty, rfl⟩
      · exact (unreadable readable.2).elim
    · exact .inr deadlocked

end Runs

/-- The two threads never wait for each other exactly when each range that is
fetched has enough lines, as long as the parser gets through all of them. -/
theorem deadlock_free_iff (it : Iterator F) (wellFormed : WellFormed it.file) :
    (∀ s, Reachable it.step AtStart anyStep s → ¬ Deadlocked s) ↔ Ample it := by
  constructor
  · intro free texts curIndex fetches readable
    rcases drained_or_deadlock wellFormed fetches readable with ⟨enough, _⟩ | ⟨s, reached, deadlocked⟩
    · exact enough
    · exact (free s reached deadlocked).elim
  · intro ample s reached
    exact (progress_reachable wellFormed ample reached).counts.not_deadlocked

def zeros (n : Nat) (rows : UInt64) (positive : 0 < rows) : Iterator Nat where
  sscanf := integers
  minibatchRows := rows
  positive := positive
  file := textOf (List.replicate n .zero)
  fileSize := UInt64.ofNat (2 * n)
  randomAccess := false

theorem three_zeros_text {texts : List (List Char)} {curIndex : UInt64}
    (fetches : Fetches (zeros 3 2 (by decide)) texts curIndex) : ∀ text ∈ texts, text = ['0', '\n', '0', '\n', '0', '\n'] := by
  induction fetches with
  | start => nofun
  | fetch before chosen got ih =>
    rw [List.forall_mem_append, List.forall_mem_singleton]
    refine ⟨ih, ?_⟩
    cases chosen
    cases got
    rfl

theorem three_zeros_free :
    ¬ ∃ s : State Nat, Reachable (zeros 3 2 (by decide)).step AtStart anyStep s ∧ Deadlocked s := by
  intro ⟨s, reached, deadlocked⟩
  refine (deadlock_free_iff (zeros 3 2 (by decide)) ⟨_, .inl rfl⟩).mpr ?_ s reached deadlocked
  intro texts curIndex fetches _ text member
  rw [three_zeros_text fetches text member]
  decide

section Zeros

theorem zeros_add (n m : Nat) :
    textOf (List.replicate (n + m) .zero) = textOf (List.replicate n .zero) ++ textOf (List.replicate m .zero) := by
  rw [List.replicate_add, textOf, List.flatMap_append]
  rfl

theorem zeros_length (n : Nat) : (textOf (List.replicate n .zero)).length = 2 * n := by
  induction n with
  | zero => rfl
  | succ n ih =>
    rw [zeros_add, List.length_append, ih]
    rfl

theorem zeros_front (n m : Nat) :
    (textOf (List.replicate (n + (1 + m)) .zero)).take (2 * n + 1) = textOf (List.replicate n .zero) ++ ['0'] := by
  rw [zeros_add, zeros_add 1 m, ← zeros_length n, List.take_length_add_append]
  rfl

theorem zeros_back (n m : Nat) :
    (textOf (List.replicate (n + m) .zero)).drop (2 * n) = textOf (List.replicate m .zero) := by
  rw [zeros_add, ← zeros_length n, List.drop_left]

theorem zeros_readable (n : Nat) : Readable (textOf (List.replicate (n + 1) .zero) ++ ['0']) ∧
    (textOf (List.replicate (n + 1) .zero) ++ ['0']).count '\n' = n + 1 := by
  constructor
  · rw [Nat.add_comm, zeros_add]
    refine ⟨?_, by simp⟩
    show 1 < ('\n' :: (textOf (List.replicate n .zero) ++ ['0'])).length
    simp
  · rw [List.count_append, textOf_newlines]
    simp

theorem zeros_fetches (n : Nat) (size : 2 * n = 10485760) :
    Fetches (zeros (n + 2) 2 (by decide))
      [textOf (List.replicate n .zero) ++ ['0'], ['0', '\n', '0', '\n']] 10485764 := by
  have fileSize : (zeros (n + 2) 2 (by decide)).fileSize = 10485764 := by
    show UInt64.ofNat (2 * (n + 2)) = 10485764
    rw [Nat.mul_add, size]
    rfl
  have length : (zeros (n + 2) 2 (by decide)).file.length = 10485764 := by
    show (textOf (List.replicate (n + 2) .zero)).length = 10485764
    rw [zeros_length]
    omega
  have chosen : (zeros (n + 2) 2 (by decide)).getFileRange 0 0 = some ((0, 10485760), 10485760) := by
    unfold Iterator.getFileRange
    rw [fileSize]
    rfl
  have chosen' : (zeros (n + 2) 2 (by decide)).getFileRange 10485760 0 = some ((10485760, 10485764), 10485764) := by
    unfold Iterator.getFileRange
    rw [fileSize]
    rfl
  have first : (zeros (n + 2) 2 (by decide)).s3GetObjectRange (0, 10485760) =
      some (textOf (List.replicate n .zero) ++ ['0']) := by
    have front := zeros_front n 1
    rw [size] at front
    unfold Iterator.s3GetObjectRange
    rw [length]
    exact congrArg some front
  have last : (zeros (n + 2) 2 (by decide)).s3GetObjectRange (10485760, 10485764) = some ['0', '\n', '0', '\n'] := by
    have back := zeros_back n 2
    rw [size] at back
    unfold Iterator.s3GetObjectRange
    rw [length]
    exact congrArg (fun text => some (List.take 5 text)) back
  exact (Fetches.start.fetch chosen first).fetch chosen' last

end Zeros

/-- The last range of a file of 10485764 bytes holds two lines, of which the first is skipped. -/
theorem last_range_deadlocks :
    (zeros 5242882 2 (by decide)).file = textOf (List.replicate 5242882 .zero) ∧
    (zeros 5242882 2 (by decide)).rows + 1 ≤ (List.replicate 5242882 Line.zero).length ∧
    ∃ s, Reachable (zeros 5242882 2 (by decide)).step AtStart anyStep s ∧ Deadlocked s := by
  have readable : ∀ text ∈ [textOf (List.replicate 5242880 .zero) ++ ['0'], ['0', '\n', '0', '\n']], Readable text := by
    rw [List.forall_mem_cons, List.forall_mem_singleton]
    exact ⟨(zeros_readable 5242879).1, by decide⟩
  refine ⟨rfl, ?_, ?_⟩
  · rw [List.length_replicate]
    decide
  · rcases drained_or_deadlock ⟨_, .inl rfl⟩ (zeros_fetches 5242880 rfl) readable with ⟨enough, _⟩ | deadlocked
    · have few := enough ['0', '\n', '0', '\n'] (List.mem_cons_of_mem _ List.mem_cons_self)
      exact absurd few (by decide)
    · exact deadlocked

end S3IteratorLibsvm

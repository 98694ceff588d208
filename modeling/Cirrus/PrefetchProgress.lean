import Cirrus.PrefetchRing
import Cirrus.SequentialIds

/-!
The iterator in order, from the state that its constructor leaves: which object
the thread asks for next, and that a run that has come anywhere can be continued
until the next minibatch is returned.
-/
namespace S3SparseIterator
open Transition
open SequentialIds (idAt)
variable {O P : Type}

def Prefetch.asked : Prefetch O P → Option UInt64
  | .fetching id => some id
  | _ => none

/-- The objects that a get of an id may return. Nothing is asked of any other step. -/
def Gets (given : UInt64 → O → Prop) (s : State O P) : Label O → Prop
  | .prefetch (.object obj) => ∀ id ∈ s.prefetch.asked, given id obj
  | _ => True

instance {given : UInt64 → O → Prop} [∀ id obj, Decidable (given id obj)] (s : State O P) :
    (l : Label O) → Decidable (Gets given s l)
  | .prefetch (.object _) => Option.decidableForallMem (o := s.prefetch.asked)
  | .prefetch .go | .prefetch (.sample _) | .prefetch .fails | .consumer => isTrue trivial

/-- The steps of a run in which the accesses to `list_strings` do not overlap. -/
def Orderly (given : UInt64 → O → Prop) (s : State O P) (l : Label O) : Prop := Gets given s l ∧ Apart s l

variable {it : Iterator O P} {given : UInt64 → O → Prop} {s t : State O P}

section Order

def FetchAt (it : Iterator O P) (given : UInt64 → O → Prop) (s : State O P) : Prop :=
  let id := idAt it.leftId it.rightId s.fetched.length
  let next := idAt it.leftId it.rightId (s.fetched.length + 1)
  match s.prefetch with
  | .fetching asked => asked = id ∧ s.current = next
  | .pushing asked obj | .inserting asked obj => asked = id ∧ given id obj ∧ s.current = next
  | .inserted asked | .finding asked =>
    asked = id ∧ (∀ obj, s.listStrings s.strVersion = some obj → given id obj) ∧ s.current = next
  | _ => s.current = id

structure Supplied (it : Iterator O P) (given : UInt64 → O → Prop) (s : State O P) : Prop where
  ids : ∀ (k : Nat) e, s.fetched[k]? = some e → e.1 = idAt it.leftId it.rightId k ∧ given e.1 e.2
  fetch : FetchAt it given s

theorem supplied_start (inOrder : it.randomAccess = false) (start : it.AtStart s) : Supplied it given s := by
  obtain ⟨garbage, rfl⟩ := start
  refine ⟨nofun, ?_⟩
  unfold FetchAt
  rw [inOrder]
  rfl

theorem got {choice : Iterator.Choice O} {id : UInt64} {obj : O} (here : s.prefetch = .fetching id)
    (allowed : Gets given s (.prefetch choice))
    (taken : it.threadFunction s choice = some { s with prefetch := .pushing id obj }) : given id obj := by
  unfold Iterator.threadFunction at taken
  rw [here] at taken
  cases choice with
  | go => cases taken
  | sample => cases taken
  | fails =>
    have same := congrArg State.prefetch (Option.some.inj taken)
    rw [here] at same
    cases same
  | object other =>
    simp only at taken
    split at taken
    next => cases taken
    next =>
      have same := congrArg State.prefetch (Option.some.inj taken)
      cases same
      exact allowed id (by rw [here]; rfl)

theorem supplied_thread (inOrder : it.randomAccess = false) (supplied : Supplied it given s)
    {choice : Iterator.Choice O} (allowed : Gets given s (.prefetch choice))
    (taken : it.threadFunction s choice = some t) : Supplied it given t := by
  obtain ⟨ids, fetch⟩ := supplied
  cases threadFunction_moves taken with
  | @wait sampled id current here credit chosen =>
    rw [FetchAt, here] at fetch
    simp only at fetch
    unfold Iterator.getObjId at chosen
    rw [if_neg (by rw [inOrder]; nofun), Option.some.injEq, Prod.mk.injEq, fetch] at chosen
    exact ⟨ids, chosen.1.symm, chosen.2.symm⟩
  | retry here => exact ⟨ids, fetch⟩
  | @fetch id obj here distinct =>
    rw [FetchAt, here] at fetch
    exact ⟨ids, fetch.1, fetch.1 ▸ got here allowed taken, fetch.2⟩
  | insert here =>
    rw [FetchAt, here] at fetch
    exact ⟨ids, fetch⟩
  | @inserted id obj here =>
    rw [FetchAt, here] at fetch
    obtain ⟨asked, supplied, current⟩ := fetch
    refine ⟨ids, asked, ?_, current⟩
    intro found there
    simp only [Function.update_self, Option.some.injEq] at there
    exact there ▸ supplied
  | find here =>
    rw [FetchAt, here] at fetch
    exact ⟨ids, fetch⟩
  | @cut id obj positions here found walked =>
    rw [FetchAt, here] at fetch
    obtain ⟨asked, supplied, current⟩ := fetch
    have supplied := supplied obj found
    refine ⟨fun k e there => history_concat ids ⟨asked, asked ▸ supplied⟩ k e there, ?_⟩
    show s.current = idAt it.leftId it.rightId (s.fetched ++ [(id, obj)]).length
    rw [current, List.length_append, List.length_singleton]
  | lock here | add here | unlock here | count here | counted here | post here | close here =>
    rw [FetchAt, here] at fetch
    exact ⟨ids, fetch⟩

theorem supplied_getNext (supplied : Supplied it given s) (move : GetNextMove s t) : Supplied it given t := by
  obtain ⟨ids, fetch⟩ := supplied
  cases move with
  | erased here =>
    refine ⟨ids, ?_⟩
    -- a string that is erased is not found
    have fewer (id : UInt64) (supplied : ∀ obj, s.listStrings s.strVersion = some obj → given id obj) (obj : O)
        (there : Function.update s.listStrings s.toDelete none s.strVersion = some obj) : given id obj := by
      rw [Function.update_apply] at there
      split at there
      next => cases there
      next => exact supplied obj there
    cases busy : s.prefetch with
    | inserted | finding =>
      rw [FetchAt, busy] at fetch
      simp only [FetchAt]
      exact ⟨fetch.1, fewer _ fetch.2.1, fetch.2.2⟩
    | waiting | fetching | pushing | inserting | locking | adding | unlocking | counting | posting | closing =>
      rw [FetchAt, busy] at fetch
      simp only [FetchAt]
      exact fetch
  | _ => exact ⟨ids, fetch⟩

theorem supplied_step (inOrder : it.randomAccess = false) (supplied : Supplied it given s) {l : Label O}
    (allowed : Gets given s l) (acted : it.act s l = some t) : Supplied it given t := by
  cases l with
  | prefetch choice => exact supplied_thread inOrder supplied allowed acted
  | consumer => exact supplied_getNext supplied (getNext_moves acted)

end Order

section Lock

/-- The places at which a thread has the lock. A call that throws keeps it. -/
def Prefetch.locks : Prefetch O P → Prop
  | .adding _ | .unlocking => True
  | _ => False

def Consumer.locks : Consumer P → Prop
  | .discarding | .counting _ | .unlocking _ | .failed => True
  | _ => False

structure Running (s : State O P) : Prop where
  lock : s.ringLock = true → s.prefetch.locks ∨ s.consumer.locks
  alive : s.consumer ≠ .failed

theorem running_start (start : it.AtStart s) : Running s := by
  obtain ⟨garbage, rfl⟩ := start
  exact ⟨nofun, nofun⟩

theorem running_thread (running : Running s) (move : ThreadMove it s t) : Running t := by
  obtain ⟨lock, alive⟩ := running
  cases move with
  | lock here => exact ⟨fun _ => .inl trivial, alive⟩
  | unlock here => exact ⟨nofun, alive⟩
  | retry here => exact ⟨lock, alive⟩
  | add here => exact ⟨fun _ => .inl trivial, alive⟩
  | wait here | fetch here | insert here | inserted here | find here | cut here | count here | counted here
  | post here | close here =>
    rw [here] at lock
    exact ⟨fun held => .inr ((lock held).resolve_left id), alive⟩

theorem running_getNext (running : Running s) (stocked : s.consumer = .discarding → s.minibatchesList.contents ≠ [])
    (move : GetNextMove s t) : Running t := by
  obtain ⟨lock, alive⟩ := running
  cases move with
  | lock here => exact ⟨fun _ => .inr trivial, nofun⟩
  | discard here => exact ⟨lock, alive⟩
  | take here => exact ⟨fun _ => .inr trivial, nofun⟩
  | throw here front => exact absurd front (stocked here)
  | count here => exact ⟨fun _ => .inr trivial, nofun⟩
  | unlock here => exact ⟨nofun, nofun⟩
  | erase here | call here | erased here | wait here | mark here | few here | enough here | noCredit here
  | credit here | signal here | build here =>
    rw [here] at lock
    exact ⟨fun held => .inl ((lock held).resolve_right id), nofun⟩

end Lock

structure Sequential (it : Iterator O P) (given : UInt64 → O → Prop) (s : State O P) : Prop where
  inv : Inv it s
  supplied : Supplied it given s
  running : Running s
  clear : s.racing = false

theorem sequential_start (positive : 1 ≤ it.nMinibatches) (inOrder : it.randomAccess = false)
    (start : it.AtStart s) : Sequential it given s := by
  refine ⟨⟨counts_start positive start, contents_start start, strings_start start⟩, supplied_start inOrder start,
    running_start start, ?_⟩
  obtain ⟨garbage, rfl⟩ := start
  rfl

theorem sequential_step (small : 3 * it.nMinibatches + 199 < 2 ^ 31) (positive : 1 ≤ it.nMinibatches)
    (inOrder : it.randomAccess = false) (before : Sequential it given s) {l : Label O} (allowed : Orderly given s l)
    (taken : it.step s l = some t) : Sequential it given t := by
  obtain ⟨inv, supplied, running, clear⟩ := before
  have acted : it.act s l = some t := by rwa [← step_of_act it clear allowed.2]
  refine ⟨inv_step small positive inv taken, supplied_step inOrder supplied allowed.1 acted, ?_,
    (racing_step allowed.2 taken).trans clear⟩
  rcases act_moves acted with move | move
  · exact running_thread running move
  · exact running_getNext running (ring_stocked inv.counts inv.contents) move

theorem sequential_reachable (small : 3 * it.nMinibatches + 199 < 2 ^ 31) (positive : 1 ≤ it.nMinibatches)
    (inOrder : it.randomAccess = false) (reached : Reachable it.step it.AtStart (Orderly given) s) :
    Sequential it given s :=
  reached.invariant (fun _ start => sequential_start positive inOrder start)
    fun _ _ _ before allowed taken => sequential_step small positive inOrder before allowed taken

section Distance

/-- How far the thread is from giving the consumer a minibatch. -/
def Prefetch.distance (n : Nat) : Prefetch O P → Nat
  | .posting _ => 1
  | .counting i => if i < n then 2 else 13
  | .unlocking => 3
  | .adding _ => 4
  | .locking _ => 5
  | .finding _ => 6
  | .inserted _ => 7
  | .inserting _ _ => 8
  | .pushing _ _ => 9
  | .fetching _ => 10
  | .waiting => 11
  | .closing => 12

def State.callDistance (s : State O P) : Nat :=
  match s.consumer with
  | .failed => 0
  | .building _ => 1
  | .signalling _ => 2
  | .checkingSem _ => 3
  | .checkingReady _ => 4
  | .marking _ => 5
  | .unlocking _ => 6
  | .counting _ => 7
  | .discarding =>
    match s.minibatchesList.contents with
    | [] :: _ => 9
    | _ => 8
  | .locking => 10
  | .waiting => if s.semaphore = 0 then 12 else 11
  | .erasing => 13
  | .idle => 14

def Iterator.distance (it : Iterator O P) (s : State O P) : Nat :=
  20 * s.callDistance + s.prefetch.distance it.nMinibatches

theorem Prefetch.distance_le (n : Nat) (p : Prefetch O P) : p.distance n ≤ 13 := by
  unfold Prefetch.distance
  split <;> try omega
  split <;> omega

def Closer (it : Iterator O P) (given : UInt64 → O → Prop) (s : State O P) : Prop :=
  ∃ l t, Orderly given s l ∧ it.step s l = some t ∧
    (s.returned.length < t.returned.length ∨ it.distance t < it.distance s)

section Access

theorem apart_thread (still : s.consumer.accesses = false) (choice : Iterator.Choice O) :
    Apart s (.prefetch choice) := by
  unfold Apart races
  cases choice with
  | go => simp only [still, Bool.and_false]
  | sample | fails | object => rfl

theorem apart_call (within : s.consumer ≠ .idle) : Apart s (.consumer : Label O) := by
  unfold Apart races
  cases here : s.consumer with
  | idle => exact absurd here within
  | _ => rfl

theorem apart_idle (free : s.toDelete = -1 ∨ s.prefetch.accesses = false) : Apart s (.consumer : Label O) := by
  simp only [Apart, races]
  split
  next =>
    rcases free with keeps | away
    · simp [keeps]
    · simp [away]
  next => rfl

end Access

theorem closer_act {l : Label O} (clear : s.racing = false) (allowed : Orderly given s l) (acted : it.act s l = some t)
    (nearer : s.returned.length < t.returned.length ∨ it.distance t < it.distance s) : Closer it given s :=
  ⟨l, t, allowed, (step_of_act it clear allowed.2).trans acted, nearer⟩

theorem closer_call (clear : s.racing = false) (apart : Apart s (.consumer : Label O)) (moved : getNext s = some t)
    (less : t.callDistance < s.callDistance) (same : t.prefetch = s.prefetch) : Closer it given s := by
  refine closer_act (l := .consumer) clear ⟨trivial, apart⟩ moved (.inr ?_)
  unfold Iterator.distance
  rw [same]
  omega

theorem closer_thread (clear : s.racing = false) (still : s.consumer.accesses = false) (choice : Iterator.Choice O)
    (allowed : Gets given s (.prefetch choice)) (moved : it.threadFunction s choice = some t)
    (nearer : s.prefetch.distance it.nMinibatches = t.prefetch.distance it.nMinibatches + 1)
    (same : t.callDistance = s.callDistance) : Closer it given s := by
  refine closer_act (l := .prefetch choice) clear ⟨allowed, apart_thread still choice⟩ moved (.inr ?_)
  unfold Iterator.distance
  rw [same]
  omega

theorem closer_post {i : Nat} (clear : s.racing = false) (here : s.prefetch = .posting i)
    (waiting : s.consumer = .waiting) (none : s.semaphore = 0) : Closer it given s := by
  have moved : it.threadFunction s .go =
      some { s with semaphore := semPost s.semaphore, prefetch := .counting (i + 1) } := by
    unfold Iterator.threadFunction
    rw [here]
  refine closer_act (l := .prefetch .go) clear ⟨trivial, apart_thread (by rw [waiting]; rfl) .go⟩ moved (.inr ?_)
  have near := Prefetch.distance_le it.nMinibatches (.counting (i + 1) : Prefetch O P)
  unfold Iterator.distance State.callDistance
  simp only [waiting, none]
  rw [if_neg (by decide), if_pos trivial]
  omega

theorem closer_locked (clear : s.racing = false) (positive : 1 ≤ it.nMinibatches)
    (away : s.consumer = .waiting ∨ s.consumer = .locking) (held : s.prefetch.locks) : Closer it given s := by
  have still : s.consumer.accesses = false := by
    rcases away with place | place <;> rw [place] <;> rfl
  cases here : s.prefetch with
  | adding queue =>
    have moved : it.threadFunction s .go = some { s with
        minibatchesList := s.minibatchesList.add queue
        pushed := s.pushed ++ queue
        prefetch := .unlocking } := by
      unfold Iterator.threadFunction
      rw [here]
    apply closer_thread clear still .go trivial moved
    · rw [here]
      rfl
    · rcases away with place | place <;> simp only [State.callDistance, place]
  | unlocking =>
    have moved : it.threadFunction s .go = some { s with ringLock := false, prefetch := .counting 0 } := by
      unfold Iterator.threadFunction
      rw [here]
    apply closer_thread clear still .go trivial moved
    · rw [here]
      simp only [Prefetch.distance]
      rw [if_pos (by omega)]
    · rfl
  | waiting | fetching | pushing | inserting | inserted | finding | locking | counting | posting | closing =>
    rw [here] at held
    exact held.elim

theorem closer_inserting {id : UInt64} {obj : O} (clear : s.racing = false) (still : s.consumer.accesses = false)
    (here : s.prefetch = .inserting id obj) : Closer it given s := by
  have moved : it.threadFunction s .go = some { s with
      listStrings := Function.update s.listStrings s.strVersion (some obj)
      prefetch := .inserted id } := by
    unfold Iterator.threadFunction
    rw [here]
  apply closer_thread clear still .go trivial moved
  · rw [here]
    rfl
  · rfl

section Supply
variable (supply : ∀ k, ∃ obj, given (idAt it.leftId it.rightId k) obj)
  (cuts : ∀ k obj, given (idAt it.leftId it.rightId k) obj → ∃ positions, it.starts obj = some positions)

include cuts in
theorem closer_finding {id : UInt64} (seq : Sequential it given s) (still : s.consumer.accesses = false)
    (here : s.prefetch = .finding id) : Closer it given s := by
  have fetch := seq.supplied.fetch
  rw [FetchAt, here] at fetch
  obtain ⟨obj, found⟩ := seq.inv.strings.stored (by rw [here]; trivial)
  obtain ⟨positions, walked⟩ := cuts s.fetched.length obj (fetch.1 ▸ fetch.2.1 obj found)
  have moved : it.threadFunction s .go = some { s with
      fetched := s.fetched ++ [(id, obj)]
      prefetch := .locking (it.queue s.strVersion positions) } := by
    unfold Iterator.threadFunction
    rw [here]
    simp only [found, walked, Option.bind_some, Option.map_some]
  apply closer_thread seq.clear still .go trivial moved
  · rw [here]
    rfl
  · rfl

include supply cuts in
theorem closer_waiting (inOrder : it.randomAccess = false) (distinct : it.rightId ≠ it.leftId)
    (small : s.strVersion < intMax) (positive : 1 ≤ it.nMinibatches) (seq : Sequential it given s)
    (waiting : s.consumer = .waiting) (none : s.semaphore = 0) : Closer it given s := by
  have fetch := seq.supplied.fetch
  have clear := seq.clear
  have still : s.consumer.accesses = false := by
    rw [waiting]
    rfl
  cases here : s.prefetch with
  | waiting =>
    have credit : 0 < s.prefSem := by
      apply Nat.pos_of_ne_zero
      intro noCredit
      exact seq.inv.counts.unblocked ⟨waiting, none, here, noCredit⟩
    have moved : it.threadFunction s (.sample 0) = some { s with
        prefSem := s.prefSem - 1
        current := if s.current + 1 = it.rightId then it.leftId else s.current + 1
        prefetch := .fetching s.current } := by
      unfold Iterator.threadFunction Iterator.getObjId
      rw [here, inOrder]
      exact if_pos credit
    apply closer_thread clear still (.sample 0) trivial moved
    · rw [here]
      rfl
    · rfl
  | fetching id =>
    rw [FetchAt, here] at fetch
    obtain ⟨obj, given⟩ := supply s.fetched.length
    have moved : it.threadFunction s (.object obj) = some { s with prefetch := .pushing id obj } := by
      unfold Iterator.threadFunction
      rw [here]
      exact if_neg distinct
    apply closer_thread clear still (.object obj) _ moved
    · rw [here]
      rfl
    · rfl
    · intro asked place
      rw [here] at place
      cases place
      rw [fetch.1]
      exact given
  | pushing id obj =>
    have moved : it.threadFunction s .go = some { s with prefetch := .inserting id obj } := by
      unfold Iterator.threadFunction
      rw [here]
    apply closer_thread clear still .go trivial moved
    · rw [here]
      rfl
    · rfl
  | inserting id obj => exact closer_inserting clear still here
  | inserted id =>
    have moved : it.threadFunction s .go = some { s with prefetch := .finding id } := by
      unfold Iterator.threadFunction
      rw [here]
    apply closer_thread clear still .go trivial moved
    · rw [here]
      rfl
    · rfl
  | finding id => exact closer_finding cuts seq still here
  | locking queue =>
    have free : s.ringLock = false := by
      cases lock : s.ringLock with
      | false => rfl
      | true =>
        rcases seq.running.lock lock with held | held
        · rw [here] at held
          exact held.elim
        · rw [waiting] at held
          exact held.elim
    have moved : it.threadFunction s .go = some { s with ringLock := true, prefetch := .adding queue } := by
      unfold Iterator.threadFunction
      rw [here]
      simp only [free, Bool.false_eq_true, if_false]
    apply closer_thread clear still .go trivial moved
    · rw [here]
      rfl
    · rfl
  | adding queue => exact closer_locked clear positive (.inl waiting) (by rw [here]; trivial)
  | unlocking => exact closer_locked clear positive (.inl waiting) (by rw [here]; trivial)
  | counting i =>
    by_cases more : i < it.nMinibatches
    · have moved : it.threadFunction s .go =
          some { s with numMinibatchesReady := s.numMinibatchesReady + 1, prefetch := .posting i } := by
        unfold Iterator.threadFunction
        rw [here]
        exact if_pos more
      apply closer_thread clear still .go trivial moved
      · rw [here]
        simp only [Prefetch.distance]
        rw [if_pos more]
      · rfl
    · have moved : it.threadFunction s .go = some { s with prefetch := .closing } := by
        unfold Iterator.threadFunction
        rw [here]
        exact if_neg more
      apply closer_thread clear still .go trivial moved
      · rw [here]
        simp only [Prefetch.distance]
        rw [if_neg more]
      · rfl
  | posting i => exact closer_post clear here waiting none
  | closing =>
    have moved : it.threadFunction s .go = some { s with strVersion := s.strVersion + 1, prefetch := .waiting } := by
      unfold Iterator.threadFunction
      rw [here]
      exact if_pos small
    apply closer_thread clear still .go trivial moved
    · rw [here]
      rfl
    · rfl

theorem closer_discarding (fits : 3 * it.nMinibatches + 199 < 2 ^ 31) (positive : 1 ≤ it.nMinibatches)
    (inv : Inv it s) (clear : s.racing = false) (discarding : s.consumer = .discarding) : Closer it given s := by
  have apart : Apart s (.consumer : Label O) := apart_call (by rw [discarding]; nofun)
  obtain ⟨t, moved⟩ : ∃ t, getNext s = some t := by
    unfold getNext
    rw [discarding]
    exact ⟨_, rfl⟩
  have after : Inv it t := inv_step fits positive inv
    ((step_of_act it clear apart).trans (show it.act s .consumer = some t from moved))
  cases getNext_moves moved with
  | @discard rest here front =>
    have popped := (s.minibatchesList.pop_of_contents front).2
    have stocked := ring_stocked after.counts after.contents here
    rw [popped] at stocked
    have full := inv.contents.full
    rw [front, List.tail_cons] at full
    cases rest with
    | nil => exact absurd rfl stocked
    | cons queue others =>
      have length := full queue List.mem_cons_self
      cases queue with
      | nil => simp at length; omega
      | cons ret queue =>
        apply closer_call clear apart moved
        · simp only [State.callDistance, here, front, popped]
          decide
        · rfl
  | @take ret queue rest here front =>
    apply closer_call clear apart moved
    · simp only [State.callDistance, here, front]
      decide
    · rfl
  | throw here front => exact absurd front (ring_stocked inv.counts inv.contents here)
  | erase here | call here | erased here | wait here | lock here | count here | unlock here | mark here | few here
  | enough here | noCredit here | credit here | signal here | build here =>
    rw [discarding] at here
    cases here

include supply cuts in
theorem closer (fits : 3 * it.nMinibatches + 199 < 2 ^ 31) (positive : 1 ≤ it.nMinibatches)
    (inOrder : it.randomAccess = false) (distinct : it.rightId ≠ it.leftId) (small : s.strVersion < intMax)
    (seq : Sequential it given s) : Closer it given s := by
  have clear := seq.clear
  cases here : s.consumer with
  | idle =>
    have still : s.consumer.accesses = false := by
      rw [here]
      rfl
    by_cases keeps : s.toDelete = -1
    · have moved : getNext s = some { s with consumer := .waiting } := by
        unfold getNext
        rw [here]
        simp only [if_neg (not_not.mpr keeps)]
      apply closer_call clear (apart_idle (.inl keeps)) moved
      · simp only [State.callDistance, here]
        split <;> decide
      · rfl
    · -- the string is erased as soon as the thread has left the map
      cases busy : s.prefetch with
      | inserting id obj => exact closer_inserting clear still busy
      | finding id => exact closer_finding cuts seq still busy
      | waiting | fetching | pushing | inserted | locking | adding | unlocking | counting | posting | closing =>
        have moved : getNext s = some { s with consumer := .erasing } := by
          unfold getNext
          rw [here]
          simp only [if_pos keeps]
        apply closer_call clear (apart_idle (.inr (by rw [busy]; rfl))) moved
        · simp only [State.callDistance, here]
          decide
        · rfl
  | erasing =>
    apply closer_call clear (apart_call (by rw [here]; nofun)) (by unfold getNext; rw [here])
    · simp only [State.callDistance, here]
      split <;> decide
    · rfl
  | waiting =>
    have apart : Apart s (.consumer : Label O) := apart_call (by rw [here]; nofun)
    by_cases none : s.semaphore = 0
    · exact closer_waiting supply cuts inOrder distinct small positive seq here none
    · apply closer_call clear apart (by unfold getNext; rw [here]; exact if_pos (Nat.pos_of_ne_zero none))
      · simp only [State.callDistance, here]
        rw [if_neg none]
        decide
      · rfl
  | locking =>
    have apart : Apart s (.consumer : Label O) := apart_call (by rw [here]; nofun)
    cases lock : s.ringLock with
    | true =>
      have held := (seq.running.lock lock).resolve_right (by rw [here]; exact id)
      exact closer_locked clear positive (.inr here) held
    | false =>
      apply closer_call clear apart (by unfold getNext; rw [here, lock]; rfl)
      · simp only [State.callDistance, here]
        split <;> decide
      · rfl
  | discarding => exact closer_discarding fits positive seq.inv clear here
  | counting ret | unlocking ret | marking ret | signalling ret =>
    have apart : Apart s (.consumer : Label O) := apart_call (by rw [here]; nofun)
    apply closer_call clear apart (by unfold getNext; rw [here])
    · simp only [State.callDistance, here]
      decide
    · rfl
  | checkingReady ret =>
    have apart : Apart s (.consumer : Label O) := apart_call (by rw [here]; nofun)
    by_cases few : s.numMinibatchesReady < 200
    · have moved : getNext s = some { s with consumer := .checkingSem ret } := by
        unfold getNext
        rw [here]
        simp only [if_pos few]
      apply closer_call clear apart moved
      · simp only [State.callDistance, here]
        decide
      · rfl
    · have moved : getNext s = some { s with consumer := .building ret } := by
        unfold getNext
        rw [here]
        simp only [if_neg few]
      apply closer_call clear apart moved
      · simp only [State.callDistance, here]
        decide
      · rfl
  | checkingSem ret =>
    have apart : Apart s (.consumer : Label O) := apart_call (by rw [here]; nofun)
    by_cases none : s.prefSem < readAhead
    · have moved : getNext s = some { s with consumer := .signalling ret } := by
        unfold getNext
        rw [here]
        simp only [if_pos none]
      apply closer_call clear apart moved
      · simp only [State.callDistance, here]
        decide
      · rfl
    · have moved : getNext s = some { s with consumer := .building ret } := by
        unfold getNext
        rw [here]
        simp only [if_neg none]
      apply closer_call clear apart moved
      · simp only [State.callDistance, here]
        decide
      · rfl
  | building ret =>
    have apart : Apart s (.consumer : Label O) := apart_call (by rw [here]; nofun)
    have moved : getNext s =
        some { s with returned := s.returned ++ [(s.listStrings ret.version, ret)], consumer := .idle } := by
      unfold getNext
      rw [here]
    refine closer_act (l := .consumer) clear ⟨trivial, apart⟩ moved (.inl ?_)
    simp
  | failed => exact absurd here seq.running.alive

end Supply
end Distance

section Progress
variable (supply : ∀ k, ∃ obj, given (idAt it.leftId it.rightId k) obj)
  (cuts : ∀ k obj, given (idAt it.leftId it.rightId k) obj → ∃ positions, it.starts obj = some positions)

theorem returned_grows {l : Label O} (taken : it.step s l = some t) : s.returned.length ≤ t.returned.length := by
  rcases (act_of_step taken).imp_left act_moves with (move | move) | ⟨_, rfl⟩
  · cases move <;> exact Nat.le_refl _
  · cases move <;> simp
  · exact Nat.le_refl _

include supply cuts in
theorem returns_next (fits : 3 * it.nMinibatches + 199 < 2 ^ 31) (positive : 1 ≤ it.nMinibatches)
    (inOrder : it.randomAccess = false) (distinct : it.rightId ≠ it.leftId)
    (reached : Reachable it.step it.AtStart (Orderly given) s) :
    ∃ t, Reachable it.step (· = s) (Orderly given) t ∧
      (s.returned.length < t.returned.length ∨ intMax ≤ t.strVersion) := by
  induction away : it.distance s using Nat.strongRecOn generalizing s with
  | ind distance ih =>
    by_cases small : s.strVersion < intMax
    · obtain ⟨l, t, allowed, taken, grown | less⟩ :=
        closer supply cuts fits positive inOrder distinct small (sequential_reachable fits positive inOrder reached)
      · exact ⟨t, .step (.start rfl) allowed taken, .inl grown⟩
      · obtain ⟨u, rest, ends⟩ := ih _ (away ▸ less) (.step reached allowed taken) rfl
        have grows := returned_grows taken
        refine ⟨u, Reachable.trans (.step (.start rfl) allowed taken) rest, ?_⟩
        exact ends.imp_left (Nat.lt_of_le_of_lt grows)
    · exact ⟨s, .start rfl, .inr (Int.not_lt.mp small)⟩

include supply cuts in
/-- Every run can be continued until so many minibatches are returned, unless the versions of the strings run out. -/
theorem returns (fits : 3 * it.nMinibatches + 199 < 2 ^ 31) (positive : 1 ≤ it.nMinibatches)
    (inOrder : it.randomAccess = false) (distinct : it.rightId ≠ it.leftId)
    (reached : Reachable it.step it.AtStart (Orderly given) s) (count : Nat) :
    ∃ t, Reachable it.step (· = s) (Orderly given) t ∧ (count ≤ t.returned.length ∨ intMax ≤ t.strVersion) := by
  induction count with
  | zero => exact ⟨s, .start rfl, .inl (Nat.zero_le _)⟩
  | succ count ih =>
    obtain ⟨t, before, enough | last⟩ := ih
    · obtain ⟨u, rest, grown | last⟩ := returns_next supply cuts fits positive inOrder distinct (reached.trans before)
      · exact ⟨u, before.trans rest, .inl (Nat.lt_of_le_of_lt enough grown)⟩
      · exact ⟨u, before.trans rest, .inr last⟩
    · exact ⟨t, before, .inr last⟩

end Progress

end S3SparseIterator

import Cirrus.PrefetchStrings

/-!
The prefetch ring of `S3SparseIterator` over whole runs of its two threads.
-/
namespace S3SparseIterator
open Transition
variable {O P : Type}

structure Inv (it : Iterator O P) (s : State O P) : Prop where
  counts : Counts it s
  contents : Contents it s
  strings : Strings it s

/-- Minibatches are returned in the order they were pushed, the front of the ring
is there when it is looked at, and nothing overflows, is read after it is erased,
waits for ever, or meets another access to the map of the strings. -/
structure Delivers (it : Iterator O P) (s : State O P) : Prop where
  order : s.returned.map Prod.snd = s.pushed.take s.returned.length
  front : s.frontOfEmpty = false
  ring : s.minibatchesList.size < 100000
  ready : 0 ≤ s.numMinibatchesReady.toInt
  reads : ∀ (k : Nat) e, s.returned[k]? = some e → ∃ f, s.fetched[k / it.nMinibatches]? = some f ∧ e.1 = some f.2
  backed : ∀ (k : Nat) m, s.pushed[k]? = some m →
    s.returned.length < it.nMinibatches * (k / it.nMinibatches + 1) →
    ∃ f, s.fetched[k / it.nMinibatches]? = some f ∧ s.listStrings m.version = some f.2
  found : ∀ id, s.prefetch = .finding id → ∃ obj, s.listStrings s.strVersion = some obj
  apart : s.racing = false
  unblocked : ¬ (s.consumer = .waiting ∧ s.semaphore = 0 ∧ s.prefetch = .waiting ∧ s.prefSem = 0)

variable {it : Iterator O P} {s t : State O P}

theorem inv_step (small : 3 * it.nMinibatches + 199 < 2 ^ 31) (positive : 1 ≤ it.nMinibatches) (inv : Inv it s)
    {l : Label O} (taken : it.step s l = some t) : Inv it t := by
  obtain ⟨counts, contents, strings⟩ := inv
  rcases (act_of_step taken).imp_left act_moves with (move | move) | ⟨_, rfl⟩
  · exact ⟨counts_thread small positive counts move, contents_thread positive counts contents move,
      strings_thread strings move⟩
  · exact ⟨counts_getNext positive counts (ring_stocked counts contents) move,
      contents_getNext counts contents move, strings_getNext positive contents strings move⟩
  · obtain ⟨index, posts, ready, one, bounded, signals, alive⟩ := counts
    obtain ⟨capacity, fifo, full, safe⟩ := contents
    obtain ⟨version, cut, laid, kept, stored, toDelete, returned⟩ := strings
    exact ⟨⟨index, posts, ready, one, bounded, signals, alive⟩, ⟨capacity, fifo, full, safe⟩,
      ⟨version, cut, laid, kept, stored, toDelete, returned⟩⟩

theorem inv_reachable (small : 3 * it.nMinibatches + 199 < 2 ^ 31) (positive : 1 ≤ it.nMinibatches)
    {permitted : State O P → Label O → Prop} (reached : Reachable it.step it.AtStart permitted s) : Inv it s :=
  reached.invariant (fun _ start => ⟨counts_start positive start, contents_start start, strings_start start⟩)
    fun _ _ _ inv _ taken => inv_step small positive inv taken

theorem racing_moves (move : ThreadMove it s t ∨ GetNextMove s t) : t.racing = s.racing := by
  rcases move with move | move
  · cases move <;> rfl
  · cases move <;> rfl

theorem racing_step {l : Label O} (apart : Apart s l) (taken : it.step s l = some t) : t.racing = s.racing := by
  rcases act_of_step taken with acted | ⟨overlaps, _⟩
  · exact racing_moves (act_moves acted)
  · rw [Apart, overlaps] at apart
    cases apart

theorem clear_reachable (reached : Reachable it.step it.AtStart Apart s) : s.racing = false := by
  apply reached.invariant
  · rintro _ ⟨garbage, rfl⟩
    rfl
  · intro s l t clear apart taken
    rw [racing_step apart taken, clear]

theorem apart_of_clear (reached : Reachable it.step it.AtStart anyStep s) (clear : s.racing = false) :
    Reachable it.step it.AtStart Apart s := by
  induction reached with
  | start initial => exact .start initial
  | @step s t l _ _ taken ih =>
    have moving : s.racing = false := by
      cases racing : s.racing with
      | false => rfl
      | true =>
        unfold Iterator.step at taken
        rw [racing, if_pos rfl] at taken
        cases taken
    refine .step (ih moving) ?_ taken
    cases overlaps : races s l with
    | false => exact overlaps
    | true =>
      unfold Iterator.step at taken
      rw [moving, if_neg Bool.false_ne_true, if_pos overlaps] at taken
      obtain rfl := Option.some.inj taken
      cases clear

theorem ends_of_racing {permitted : State O P → Label O → Prop} (racing : s.racing = true)
    (reached : Reachable it.step (· = s) permitted t) : t = s := by
  induction reached with
  | start initial => exact initial
  | step _ _ taken ih =>
    subst ih
    unfold Iterator.step at taken
    rw [racing, if_pos rfl] at taken
    cases taken

theorem pushed_describes (strings : Strings it s) {k : Nat} {m : Minibatch P} (there : s.pushed[k]? = some m) :
    Describes it s.fetched k m := by
  apply laidOut_describes strings.cut
  rw [← strings.laid]
  rwa [List.getElem?_append_left (List.getElem?_eq_some_iff.mp there).1]

/-- Where both threads wait, nothing is left to take and no credit is given. -/
theorem Counts.unblocked (counts : Counts it s) :
    ¬ (s.consumer = .waiting ∧ s.semaphore = 0 ∧ s.prefetch = .waiting ∧ s.prefSem = 0) := by
  rintro ⟨consumer, none, prefetch, noCredit⟩
  have posts := counts.posts
  have alive := counts.alive (by rw [consumer]; trivial)
  simp only [consumer, none, prefetch, noCredit, Prefetch.unposted, Prefetch.due, Consumer.claimed,
    Nat.mul_zero] at posts alive
  omega

theorem Inv.delivers (positive : 1 ≤ it.nMinibatches) (inv : Inv it s) (clear : s.racing = false) :
    Delivers it s := by
  obtain ⟨counts, contents, strings⟩ := inv
  constructor
  · rw [← contents.fifo, State.taken, List.append_assoc, List.take_left' (by simp)]
  · exact contents.safe
  · have small := ring_small positive counts contents
    omega
  · have ready := counts.ready
    have posts := counts.posts
    have fewer := s.prefetch.uncounted_le it.nMinibatches
    omega
  · exact strings.returned
  · intro k m there short
    have described := pushed_describes strings there
    obtain ⟨f, _, source, _⟩ := described.source
    refine ⟨f, source, ?_⟩
    rw [described.version]
    exact strings.strings _ f source short
  · intro id finding
    exact strings.stored (by rw [finding]; trivial)
  · exact clear
  · exact counts.unblocked

theorem nMinibatches_positive (some_rows : 1 ≤ it.minibatchRows.toNat)
    (rows : it.minibatchRows.toNat ≤ it.s3Rows.toNat) : 1 ≤ it.nMinibatches := by
  unfold Iterator.nMinibatches
  rw [UInt64.toNat_div]
  exact Nat.div_pos rows some_rows

/-- In every state of every run in which the accesses to `list_strings` do not overlap, as
long as the counter of ready minibatches is wide enough for three objects and the 199
minibatches that ask for a third. -/
theorem prefetch_ring (it : Iterator O P) (some_rows : 1 ≤ it.minibatchRows.toNat)
    (rows : it.minibatchRows.toNat ≤ it.s3Rows.toNat)
    (fits : 3 * (it.s3Rows.toNat / it.minibatchRows.toNat) + 199 < 2 ^ 31) {s : State O P}
    (reached : Reachable it.step it.AtStart Apart s) : Delivers it s := by
  have positive := nMinibatches_positive some_rows rows
  have small : 3 * it.nMinibatches + 199 < 2 ^ 31 := by
    unfold Iterator.nMinibatches
    rwa [UInt64.toNat_div]
  exact (inv_reachable small positive reached).delivers positive (clear_reachable reached)

def rowByRow (s3Rows : UInt64) : Iterator Unit Unit where
  leftId := 0
  rightId := 1
  randomAccess := false
  s3Rows := s3Rows
  minibatchRows := 1
  starts := fun _ => some (List.replicate (s3Rows / 1).toNat ())
  starts_length := by
    rintro _ _ ⟨⟩
    exact List.length_replicate

def oneObject : State Unit Unit :=
  { minibatchesList := .ofCapacity 100000 CircularBuffer.hundredThousand_pos fun _ => [], current := 0 }

theorem oneObject_atStart (s3Rows : UInt64) : (rowByRow s3Rows).AtStart oneObject := ⟨fun _ => [], rfl⟩

def push (s3Rows : Nat) : List (Label Unit) :=
  [.prefetch (.sample 0), .prefetch (.object ())] ++ List.replicate (9 + 2 * s3Rows) (.prefetch .go)

theorem prefetch_ring_returned : ∃ s, Reachable (rowByRow 2).step (rowByRow 2).AtStart Apart s ∧
    s.returned.length = 2 ∧ s.fetched.length = 2 ∧ Delivers (rowByRow 2) s := by
  have returned : (follow (rowByRow 2).step oneObject
      (push 2 ++ List.replicate 11 .consumer ++ push 2 ++ List.replicate 13 .consumer)).map
        (fun s => (s.returned.length, s.fetched.length, s.racing)) = some (2, 2, false) := by decide
  obtain ⟨s, taken, facts⟩ := Option.map_eq_some_iff.mp returned
  simp only [Prod.mk.injEq] at facts
  obtain ⟨two, fetched, clear⟩ := facts
  have reached := apart_of_clear (Reachable.follow (.start (oneObject_atStart 2)) taken) clear
  exact ⟨s, reached, two, fetched, prefetch_ring (rowByRow 2) (by decide) (by decide) (by decide) reached⟩

/-- The object is fetched, its one minibatch returned, and the object fetched again. Its
string is put into the map while the next call erases the first string. -/
theorem accesses_overlap : ∃ s, Reachable (rowByRow 1).step (rowByRow 1).AtStart anyStep s ∧
    s.toDelete = 0 ∧ s.prefetch.accesses = true ∧ ¬ Delivers (rowByRow 1) s := by
  have outcome : (follow (rowByRow 1).step oneObject (push 1 ++ List.replicate 11 .consumer ++
      [.prefetch (.sample 0), .prefetch (.object ()), .prefetch .go, .consumer])).map
        (fun s => (s.toDelete, s.prefetch.accesses, s.racing)) = some (0, true, true) := by decide
  obtain ⟨s, taken, facts⟩ := Option.map_eq_some_iff.mp outcome
  simp only [Prod.mk.injEq] at facts
  obtain ⟨toDelete, accesses, racing⟩ := facts
  refine ⟨s, Reachable.follow (.start (oneObject_atStart 1)) taken, toDelete, accesses, ?_⟩
  intro delivers
  rw [delivers.apart] at racing
  cases racing

end S3SparseIterator

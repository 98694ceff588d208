import Cirrus.PrefetchCounts

/-!
The contents of the prefetch ring: it is the queue of what is pushed and not
taken yet, it is never empty when its front is looked at, and it never fills.
-/
namespace S3SparseIterator
variable {O P : Type}

def State.taken (s : State O P) : List (Minibatch P) := s.returned.map Prod.snd ++ s.consumer.held

theorem State.taken_length (s : State O P) : s.taken.length = s.takenCount := by
  simp [State.taken, State.takenCount]

structure Contents (it : Iterator O P) (s : State O P) : Prop where
  capacity : s.minibatchesList.capacity = 100000
  fifo : s.taken ++ s.minibatchesList.contents.flatten = s.pushed
  full : ∀ queue ∈ s.minibatchesList.contents.tail, queue.length = it.nMinibatches
  safe : s.frontOfEmpty = false

theorem flatten_uniform {A : Type} {n : Nat} {queues : List (List A)} (full : ∀ queue ∈ queues, queue.length = n) :
    queues.flatten.length = n * queues.length := by
  induction queues with
  | nil => rfl
  | cons first rest ih =>
    rw [List.forall_mem_cons] at full
    rw [List.flatten_cons, List.length_append, ih full.2, full.1, List.length_cons, Nat.mul_succ, Nat.add_comm]

theorem flatten_full {A : Type} {n : Nat} {queues : List (List A)} (full : ∀ queue ∈ queues.tail, queue.length = n) :
    n * (queues.length - 1) ≤ queues.flatten.length := by
  cases queues with
  | nil => simp
  | cons first rest =>
    have count : rest.flatten.length = n * rest.length := flatten_uniform full
    rw [List.flatten_cons, List.length_append, count, List.length_cons, Nat.add_sub_cancel]
    omega

variable {it : Iterator O P} {s t : State O P}

theorem contents_start (start : it.AtStart s) : Contents it s := by
  obtain ⟨garbage, rfl⟩ := start
  refine ⟨rfl, ?_, ?_, rfl⟩ <;> simp [CircularBuffer.contents_ofCapacity, State.taken, Consumer.held]

theorem Contents.remaining (contents : Contents it s) :
    s.takenCount + s.minibatchesList.contents.flatten.length = s.pushed.length := by
  rw [← State.taken_length, ← List.length_append, contents.fifo]

theorem ring_small (positive : 1 ≤ it.nMinibatches) (counts : Counts it s) (contents : Contents it s) :
    s.minibatchesList.size ≤ 203 := by
  have bounded := counts.bounded
  have remaining := contents.remaining
  have full := flatten_full contents.full
  have limit : s.consumer.limit it.nMinibatches ≤ 199 + 3 * it.nMinibatches := by
    unfold Consumer.limit
    split <;> omega
  rw [← CircularBuffer.contents_length]
  apply Nat.le_of_not_lt
  intro large
  have many : it.nMinibatches * 203 ≤ it.nMinibatches * (s.minibatchesList.contents.length - 1) :=
    Nat.mul_le_mul_left _ (by omega)
  omega

theorem ring_free (positive : 1 ≤ it.nMinibatches) (counts : Counts it s) (contents : Contents it s) :
    s.minibatchesList.size + 1 < s.minibatchesList.capacity := by
  have small := ring_small positive counts contents
  rw [contents.capacity]
  omega

theorem ring_stocked (counts : Counts it s) (contents : Contents it s) (claimed : s.consumer = .discarding) :
    s.minibatchesList.contents ≠ [] := by
  intro empty
  have posts := counts.posts
  have remaining := contents.remaining
  rw [empty] at remaining
  simp only [claimed, Consumer.claimed, List.flatten_nil, List.length_nil] at posts remaining
  omega

theorem contents_thread (positive : 1 ≤ it.nMinibatches) (counts : Counts it s) (contents : Contents it s)
    (move : ThreadMove it s t) : Contents it t := by
  cases move with
  | @add queue here =>
    have free := ring_free positive counts contents
    have index := counts.index
    simp only [here, Prefetch.InRange] at index
    obtain ⟨capacity, fifo, full, safe⟩ := contents
    have added := s.minibatchesList.contents_add queue free
    refine ⟨capacity, ?_, ?_, safe⟩
    · change s.taken ++ (s.minibatchesList.add queue).contents.flatten = s.pushed ++ queue
      rw [added, List.flatten_append, ← List.append_assoc, fifo, List.flatten_singleton]
    · simp only [added]
      intro other member
      cases before : s.minibatchesList.contents with
      | nil => simp [before] at member
      | cons first rest =>
        rw [before, List.cons_append, List.tail_cons, List.mem_append, List.mem_singleton] at member
        rcases member with member | rfl
        · exact full other (by rwa [before])
        · exact index
  | _ => exact ⟨contents.capacity, contents.fifo, contents.full, contents.safe⟩

theorem contents_getNext (counts : Counts it s) (contents : Contents it s) (move : GetNextMove s t) :
    Contents it t := by
  have stocked := ring_stocked counts contents
  obtain ⟨capacity, fifo, full, safe⟩ := contents
  cases move with
  | @discard rest here front =>
    have popped := (CircularBuffer.pop_of_contents _ front).2
    refine ⟨capacity, ?_, ?_, safe⟩
    · change s.taken ++ s.minibatchesList.advance.contents.flatten = s.pushed
      rw [popped, ← fifo, front, List.flatten_cons, List.nil_append]
    · intro queue member
      simp only [popped] at member
      apply full
      rw [front]
      exact List.mem_of_mem_tail member
  | @take ret queue rest here front =>
    have written := s.minibatchesList.contents_setFirst queue front
    refine ⟨capacity, ?_, ?_, safe⟩
    · simp only [State.taken, here, Consumer.held, List.append_nil] at fifo ⊢
      rw [written, ← fifo, front]
      simp
    · intro other member
      simp only [written] at member
      apply full
      rwa [front]
  | throw here front => exact absurd front (stocked here)
  | build here =>
    refine ⟨capacity, ?_, full, safe⟩
    simp only [State.taken, here, Consumer.held] at fifo ⊢
    rw [← fifo]
    simp
  | _ =>
    refine ⟨capacity, ?_, full, safe⟩
    simp_all [State.taken, Consumer.held]

end S3SparseIterator

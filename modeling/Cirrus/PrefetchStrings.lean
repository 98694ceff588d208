import Cirrus.PrefetchContents

/-!
What a minibatch points into: the string of its object stays in `list_strings`
until every minibatch of the object has been returned.
-/
namespace S3SparseIterator
variable {O P : Type}

def Iterator.laidOut (it : Iterator O P) (fetched : List (UInt64 × O)) : List (Minibatch P) :=
  fetched.zipIdx.flatMap fun (e, version) => it.queue version ((it.starts e.2).getD [])

namespace Prefetch

def pending : Prefetch O P → List (Minibatch P)
  | .locking queue | .adding queue => queue
  | _ => []

/-- An object is cut and its version not left yet. -/
def opened : Prefetch O P → Nat
  | .locking _ | .adding _ | .unlocking | .counting _ | .posting _ | .closing => 1
  | _ => 0

/-- The string of the version is in `list_strings`, and its object is not cut yet. -/
def stored : Prefetch O P → Prop
  | .inserted _ | .finding _ => True
  | _ => False

theorem opened_of_stored {p : Prefetch O P} (stored : p.stored) : p.opened = 0 := by
  cases p with
  | inserted | finding => rfl
  | waiting | fetching | pushing | inserting | locking | adding | unlocking | counting | posting | closing =>
    exact stored.elim

end Prefetch

/-- The `k`-th minibatch is cut from the `k / n`-th object, at the `k % n`-th position. -/
structure Describes (it : Iterator O P) (fetched : List (UInt64 × O)) (k : Nat) (m : Minibatch P) : Prop where
  source : ∃ e positions, fetched[k / it.nMinibatches]? = some e ∧ it.starts e.2 = some positions ∧
    positions[k % it.nMinibatches]? = some m.position
  version : m.version = (k / it.nMinibatches : Nat)
  isLast : m.isLast = if k % it.nMinibatches + 1 = it.nMinibatches then ((k / it.nMinibatches : Nat) : Int) else -1

structure Strings (it : Iterator O P) (s : State O P) : Prop where
  version : s.strVersion + s.prefetch.opened = s.fetched.length
  cut : ∀ e ∈ s.fetched, ∃ positions, it.starts e.2 = some positions
  laid : s.pushed ++ s.prefetch.pending = it.laidOut s.fetched
  strings : ∀ (v : Nat) e, s.fetched[v]? = some e → s.returned.length < it.nMinibatches * (v + 1) →
    s.listStrings v = some e.2
  stored : s.prefetch.stored → ∃ obj, s.listStrings s.strVersion = some obj
  toDelete : s.toDelete = -1 ∨ ∃ v : Nat, s.toDelete = v ∧ it.nMinibatches * (v + 1) ≤ s.takenCount
  returned : ∀ k e, s.returned[k]? = some e → ∃ f, s.fetched[k / it.nMinibatches]? = some f ∧ e.1 = some f.2

variable {it : Iterator O P} {s t : State O P}

section Layout

theorem laidOut_concat (fetched : List (UInt64 × O)) (e : UInt64 × O) :
    it.laidOut (fetched ++ [e]) = it.laidOut fetched ++ it.queue fetched.length ((it.starts e.2).getD []) := by
  simp [Iterator.laidOut, List.zipIdx_append]

theorem laidOut_length {fetched : List (UInt64 × O)} (cut : ∀ e ∈ fetched, ∃ positions, it.starts e.2 = some positions) :
    (it.laidOut fetched).length = it.nMinibatches * fetched.length := by
  induction fetched using List.reverseRecOn with
  | nil => rfl
  | append_singleton fetched e ih =>
    obtain ⟨positions, walked⟩ := cut e (by simp)
    rw [laidOut_concat, List.length_append, ih (fun e member => cut e (by simp [member])), walked, Option.getD_some,
      queue_length walked, List.length_append, List.length_singleton, Nat.mul_succ]

theorem queue_get {version : Int} {positions : List P} {i : Nat} {m : Minibatch P}
    (here : (it.queue version positions)[i]? = some m) : positions[i]? = some m.position ∧ m.version = version ∧
      m.isLast = if i + 1 = it.nMinibatches then version else -1 := by
  unfold Iterator.queue at here
  rw [List.getElem?_map, List.getElem?_zipIdx] at here
  cases there : positions[i]? with
  | none => simp [there] at here
  | some position =>
    simp only [there, Option.map_some, Option.some.injEq, Nat.zero_add] at here
    subst here
    exact ⟨rfl, rfl, rfl⟩

theorem Describes.concat {fetched : List (UInt64 × O)} {k : Nat} {m : Minibatch P} (described : Describes it fetched k m)
    (e : UInt64 × O) : Describes it (fetched ++ [e]) k m := by
  obtain ⟨⟨f, positions, there, walked, placed⟩, version, isLast⟩ := described
  refine ⟨⟨f, positions, ?_, walked, placed⟩, version, isLast⟩
  rwa [List.getElem?_append_left (List.getElem?_eq_some_iff.mp there).1]

theorem laidOut_describes {fetched : List (UInt64 × O)}
    (cut : ∀ e ∈ fetched, ∃ positions, it.starts e.2 = some positions) {k : Nat} {m : Minibatch P}
    (here : (it.laidOut fetched)[k]? = some m) : Describes it fetched k m := by
  induction fetched using List.reverseRecOn with
  | nil => simp [Iterator.laidOut] at here
  | append_singleton fetched e ih =>
    have before : ∀ e ∈ fetched, ∃ positions, it.starts e.2 = some positions :=
      fun e member => cut e (by simp [member])
    have size := laidOut_length before
    obtain ⟨positions, walked⟩ := cut e (by simp)
    rw [laidOut_concat, walked, Option.getD_some] at here
    rcases Nat.lt_or_ge k (it.laidOut fetched).length with early | late
    · rw [List.getElem?_append_left early] at here
      exact (ih before here).concat e
    · rw [List.getElem?_append_right late, size] at here
      have inside := (List.getElem?_eq_some_iff.mp here).1
      rw [queue_length walked] at inside
      rw [size] at late
      have quotient : k / it.nMinibatches = fetched.length := by
        apply Nat.div_eq_of_lt_le
        · rwa [Nat.mul_comm]
        · rw [Nat.mul_comm, Nat.mul_succ]
          omega
      have remainder : k % it.nMinibatches = k - it.nMinibatches * fetched.length := by
        rw [← quotient]
        exact Nat.mod_eq_sub_mul_div
      obtain ⟨placed, version, isLast⟩ := queue_get here
      refine ⟨⟨e, positions, ?_, walked, ?_⟩, ?_, ?_⟩
      · rw [quotient]
        simp
      · rwa [remainder]
      · rw [quotient, version]
      · rw [quotient, remainder, isLast]

end Layout

theorem strings_start (start : it.AtStart s) : Strings it s := by
  obtain ⟨garbage, rfl⟩ := start
  refine ⟨rfl, by simp, rfl, by simp, nofun, .inl rfl, by simp⟩

theorem strings_thread (strings : Strings it s) (move : ThreadMove it s t) : Strings it t := by
  obtain ⟨version, cut, laid, kept, stored, toDelete, returned⟩ := strings
  cases move with
  | @inserted id obj here =>
    simp only [here, Prefetch.opened, Prefetch.pending] at version laid
    refine ⟨version, cut, laid, ?_, fun _ => ⟨obj, Function.update_self ..⟩, toDelete, returned⟩
    intro v e there short
    have early := (List.getElem?_eq_some_iff.mp there).1
    have other : (v : Int) ≠ s.strVersion := by
      simp only at early
      omega
    simp only [Function.update_of_ne other]
    exact kept v e there short
  | @cut id obj positions here found walked =>
    simp only [here, Prefetch.opened, Prefetch.pending, List.append_nil] at version laid
    obtain version : s.strVersion = s.fetched.length := by simpa using version
    refine ⟨?_, ?_, ?_, ?_, nofun, toDelete, ?_⟩
    · simp [Prefetch.opened, version]
    · intro e member
      rcases List.mem_append.mp member with member | member
      · exact cut e member
      · obtain rfl := List.mem_singleton.mp member
        exact ⟨positions, walked⟩
    · simp only [Prefetch.pending]
      rw [laidOut_concat, ← laid, walked, version, Option.getD_some]
    · intro v e there short
      rcases Nat.lt_or_ge v s.fetched.length with early | late
      · rw [List.getElem?_append_left early] at there
        exact kept v e there short
      · rw [List.getElem?_append_right late] at there
        obtain ⟨last, same⟩ := List.getElem?_eq_some_iff.mp there
        rw [List.length_singleton] at last
        obtain here : (v : Int) = s.strVersion := by omega
        simp only [here, found, ← same]
        simp
    · intro k e there
      obtain ⟨f, source, read⟩ := returned k e there
      exact ⟨f, by rw [List.getElem?_append_left (List.getElem?_eq_some_iff.mp source).1, source], read⟩
  | add here =>
    simp only [here, Prefetch.opened, Prefetch.pending] at version laid
    refine ⟨version, cut, ?_, kept, nofun, toDelete, returned⟩
    simpa [Prefetch.pending] using laid
  | close here small =>
    simp only [here, Prefetch.opened, Prefetch.pending] at version laid
    refine ⟨?_, cut, laid, kept, nofun, toDelete, returned⟩
    simpa [Prefetch.opened] using version
  | find here =>
    rw [here] at stored
    simp only [here, Prefetch.opened, Prefetch.pending] at version laid
    exact ⟨version, cut, laid, kept, fun _ => stored trivial, toDelete, returned⟩
  | wait here | fetch here | insert here | lock here | unlock here | count here | counted here | post here =>
    simp only [here, Prefetch.opened, Prefetch.pending] at version laid
    exact ⟨version, cut, laid, kept, nofun, toDelete, returned⟩
  | retry here => exact ⟨version, cut, laid, kept, stored, toDelete, returned⟩

theorem held_describes (contents : Contents it s) (strings : Strings it s)
    (ret : Minibatch P) (held : s.consumer.held = [ret]) : Describes it s.fetched s.returned.length ret := by
  apply laidOut_describes strings.cut
  rw [← strings.laid, ← contents.fifo, State.taken, held]
  simp

theorem toDelete_lt (positive : 1 ≤ it.nMinibatches) (contents : Contents it s) (strings : Strings it s) :
    s.toDelete < s.fetched.length := by
  rcases strings.toDelete with none | ⟨v, same, done⟩
  · omega
  · have laid := congrArg List.length strings.laid
    rw [List.length_append, laidOut_length strings.cut] at laid
    have remaining := contents.remaining
    have inside : it.nMinibatches * (v + 1) ≤ it.nMinibatches * s.fetched.length := by omega
    have below : v + 1 ≤ s.fetched.length := Nat.le_of_mul_le_mul_left inside positive
    omega

theorem strings_getNext (positive : 1 ≤ it.nMinibatches) (contents : Contents it s) (strings : Strings it s)
    (move : GetNextMove s t) : Strings it t := by
  have described := held_describes contents strings
  have earlier := toDelete_lt positive contents strings
  obtain ⟨version, cut, laid, kept, stored, toDelete, returned⟩ := strings
  cases move with
  | erased here =>
    simp only [here, State.takenCount, Consumer.held, List.length_nil, Nat.add_zero] at toDelete
    refine ⟨version, cut, laid, ?_, ?_, toDelete, returned⟩
    · intro v e there short
      have other : (v : Int) ≠ s.toDelete := by
        rcases toDelete with none | ⟨w, same, done⟩
        · omega
        · intro equal
          obtain rfl : v = w := by omega
          simp only at short
          omega
      simp only [Function.update_of_ne other]
      exact kept v e there short
    · intro busy
      obtain ⟨obj, found⟩ := stored busy
      refine ⟨obj, ?_⟩
      have closed : s.prefetch.opened = 0 := Prefetch.opened_of_stored busy
      have other : s.strVersion ≠ s.toDelete := by omega
      simp only [Function.update_of_ne other]
      exact found
  | @mark ret here =>
    have marked := described ret (by rw [here]; rfl)
    refine ⟨version, cut, laid, kept, stored, ?_, returned⟩
    simp only [State.takenCount, Consumer.held, List.length_singleton]
    rw [marked.isLast]
    split
    next last =>
      right
      refine ⟨s.returned.length / it.nMinibatches, rfl, ?_⟩
      have whole := Nat.div_add_mod s.returned.length it.nMinibatches
      rw [Nat.mul_succ]
      omega
    next => exact .inl rfl
  | @build ret here =>
    have last := described ret (by rw [here]; rfl)
    obtain ⟨e, positions, source, _⟩ := last.source
    simp only [here, State.takenCount, Consumer.held, List.length_singleton] at toDelete
    refine ⟨version, cut, laid, ?_, stored, ?_, ?_⟩
    · intro v f there short
      simp only [List.length_append, List.length_singleton] at short
      exact kept v f there (by omega)
    · simpa [State.takenCount, Consumer.held] using toDelete
    · intro k f there
      rcases Nat.lt_or_ge k s.returned.length with early | late
      · simp only [List.getElem?_append_left early] at there
        exact returned k f there
      · simp only [List.getElem?_append_right late] at there
        obtain ⟨inside, same⟩ := List.getElem?_eq_some_iff.mp there
        rw [List.length_singleton] at inside
        obtain rfl : k = s.returned.length := by omega
        have short : s.returned.length < it.nMinibatches * (s.returned.length / it.nMinibatches + 1) := by
          have whole := Nat.div_add_mod s.returned.length it.nMinibatches
          have rest := Nat.mod_lt s.returned.length (show it.nMinibatches > 0 by omega)
          rw [Nat.mul_succ]
          omega
        refine ⟨e, source, ?_⟩
        rw [← same, last.version]
        simpa using kept _ e source short
  | take here front =>
    refine ⟨version, cut, laid, kept, stored, ?_, returned⟩
    simp only [here, State.takenCount, Consumer.held, List.length_nil, List.length_singleton] at toDelete ⊢
    rcases toDelete with none | ⟨v, same, done⟩
    · exact .inl none
    · exact .inr ⟨v, same, by omega⟩
  | discard here front => exact ⟨version, cut, laid, kept, stored, toDelete, returned⟩
  | throw here front =>
    simp only [here, State.takenCount, Consumer.held] at toDelete
    exact ⟨version, cut, laid, kept, stored, toDelete, returned⟩
  | erase here | call here | wait here | lock here | count here | unlock here | few here | enough here
  | noCredit here | credit here | signal here =>
    simp only [here, State.takenCount, Consumer.held] at toDelete
    exact ⟨version, cut, laid, kept, stored, toDelete, returned⟩

end S3SparseIterator

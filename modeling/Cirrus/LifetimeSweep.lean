import Cirrus.Lib.Walk
import Cirrus.TaskRegistry
import Mathlib.Data.List.Sort

/-!
`check_tasks_lifetime` with the iterator of its loop. `declare_task_dead` erases
the entry that the loop is at, and an iterator to an erased entry cannot be
advanced; `task_to_remaining_time[task_id]` adds an entry where there is none.
-/
namespace TaskRegistry

/-- The keys of `task_to_starttime`, as a `std::map` has them. -/
def startOrder (s : Registry) : List UInt32 := s.taskToStarttime.keys.insertionSort fun a b => a.toNat ≤ b.toNat

/-- `operator[]`, which adds a 0 for a missing key. -/
def touch (m : TaskMap Int) (taskId : UInt32) : TaskMap Int := if taskId ∈ m then m else m.insert taskId 0

/-- The body of the loop at an entry. -/
def checkTask (now : Int) (s : Registry) (taskId : UInt32) : Registry :=
  let late := overdue s now taskId
  let s := { s with taskToRemainingTime := touch s.taskToRemainingTime taskId }
  if late then (declareTaskDead s taskId).1 else s

def lifetimeLoop (now : Int) : Walk Registry UInt32 where
  keys := startOrder
  before a b := a < b
  visit := checkTask now
  asymm a b := by simpa using UInt32.le_of_lt

/-- What the loop leaves, and the entries it has visited; nothing where it advances an invalid iterator. -/
def iterateLifetime (s : Registry) (now : Int) : Option (Registry × List UInt32) := (lifetimeLoop now).forEach s

/-- Every entry is visited once, the overdue ones are removed, and nothing else changes. -/
structure Sweeps (s : Registry) (now : Int) (t : Registry) (visited : List UInt32) : Prop where
  once : visited.Nodup
  every : ∀ k, k ∈ visited ↔ k ∈ s.taskToStarttime
  removed : ∀ k, t.taskToStarttime.lookup k = if overdue s now k then none else s.taskToStarttime.lookup k
  marked : ∀ k, t.taskToRemainingTime.lookup k = if overdue s now k then some (-1) else s.taskToRemainingTime.lookup k
  counted : t.numTasks = s.numTasks - UInt32.ofNat (s.taskToStarttime.keys.filter (overdue s now)).length
  registered : t.registeredTasks = s.registeredTasks

theorem mem_startOrder {s : Registry} {k : UInt32} : k ∈ startOrder s ↔ k ∈ s.taskToStarttime := by
  rw [startOrder, List.mem_insertionSort, AList.mem_keys]

theorem startOrder_nodup (s : Registry) : (startOrder s).Nodup :=
  (List.perm_insertionSort _ _).nodup_iff.mpr s.taskToStarttime.keys_nodup

theorem startOrder_sorted (s : Registry) : (startOrder s).Pairwise fun a b => decide (a < b) := by
  have total : Std.Total fun a b : UInt32 => a.toNat ≤ b.toNat := ⟨fun a b => Nat.le_total _ _⟩
  have transitive : IsTrans UInt32 fun a b => a.toNat ≤ b.toNat := ⟨fun a b c => Nat.le_trans⟩
  have sorted : (startOrder s).Pairwise fun a b => a.toNat ≤ b.toNat := List.pairwise_insertionSort _ _
  refine (sorted.and (startOrder_nodup s)).imp ?_
  rintro a b ⟨least, different⟩
  have apart : a.toNat ≠ b.toNat := fun same => different (UInt32.toNat_inj.mp same)
  exact decide_eq_true (UInt32.lt_iff_toNat_lt.mpr (by omega))

theorem lookup_touch (m : TaskMap Int) (taskId k : UInt32) :
    (touch m taskId).lookup k = if k = taskId ∧ k ∉ m then some 0 else m.lookup k := by
  unfold touch
  by_cases known : taskId ∈ m
  · rw [if_pos known, if_neg]
    rintro ⟨rfl, missing⟩
    exact missing known
  · rw [if_neg known]
    by_cases same : k = taskId
    · subst same
      rw [AList.lookup_insert, if_pos ⟨rfl, known⟩]
    · rw [AList.lookup_insert_ne same, if_neg fun both => same both.1]

theorem mem_touch {m : TaskMap Int} {taskId k : UInt32} : k ∈ touch m taskId ↔ k = taskId ∨ k ∈ m := by
  unfold touch
  split
  next known =>
    constructor
    · exact .inr
    · rintro (rfl | member)
      · exact known
      · exact member
  next => rw [AList.mem_insert]

theorem lookup_touches (L : List UInt32) (m : TaskMap Int) (k : UInt32) :
    (L.foldl touch m).lookup k = if k ∈ L ∧ k ∉ m then some 0 else m.lookup k := by
  induction L generalizing m with
  | nil => simp
  | cons a L ih =>
    rw [List.foldl_cons, ih, lookup_touch]
    simp only [mem_touch, List.mem_cons]
    by_cases same : k = a <;> by_cases known : k ∈ m <;> simp [same, known]

variable {s : Registry} {now : Int}

theorem overdue_touch (t : Registry) (taskId k : UInt32) :
    overdue { t with taskToRemainingTime := touch t.taskToRemainingTime taskId } now k = overdue t now k := by
  have value : ((touch t.taskToRemainingTime taskId).lookup k).getD 0 = (t.taskToRemainingTime.lookup k).getD 0 := by
    rw [lookup_touch]
    split
    next missing => rw [AList.lookup_eq_none.mpr missing.2]; rfl
    next => rfl
  unfold overdue
  simp only [value]

theorem checkTask_in_time {t : Registry} {k : UInt32} (early : overdue t now k = false) :
    checkTask now t k = { t with taskToRemainingTime := touch t.taskToRemainingTime k } := by
  simp [checkTask, early]

theorem checkTask_overdue {t : Registry} {k : UInt32} (started : k ∈ t.taskToStarttime) (late : overdue t now k = true) :
    (checkTask now t k).taskToStarttime = t.taskToStarttime.erase k := by
  simp [checkTask, late, declareTaskDead, started]

structure Unswept (s : Registry) (now : Int) (t : Registry) : Prop where
  starts : t.taskToStarttime = s.taskToStarttime
  same : ∀ k, overdue t now k = overdue s now k

theorem Unswept.order {t : Registry} (unswept : Unswept s now t) : startOrder t = startOrder s := by
  rw [startOrder, unswept.starts, startOrder]

theorem Unswept.visit {t : Registry} (unswept : Unswept s now t) {k : UInt32} (early : overdue s now k = false) :
    Unswept s now (checkTask now t k) := by
  rw [checkTask_in_time (unswept.same k ▸ early)]
  exact ⟨unswept.starts, fun k => (overdue_touch t _ k).trans (unswept.same k)⟩

theorem iterate_undefined (late : ∃ k ∈ s.taskToStarttime, overdue s now k = true) : iterateLifetime s now = none := by
  obtain ⟨k, started, late⟩ := late
  refine Walk.forEach_undefined (P := Unswept s now) (fun t unswept => unswept.order) (startOrder_sorted s)
    (fun t unswept k _ early => unswept.visit (k := k) (Bool.eq_false_iff.mpr early)) (fun t unswept k member late => ?_)
    ⟨k, mem_startOrder.mpr started, late⟩ ⟨rfl, fun _ => rfl⟩
  have here : k ∈ t.taskToStarttime := unswept.starts ▸ mem_startOrder.mp member
  change k ∉ startOrder (checkTask now t k)
  rw [mem_startOrder, checkTask_overdue here (unswept.same k ▸ late), AList.mem_erase]
  exact fun both => both.1 rfl

theorem iterate_ends (early : ∀ k ∈ s.taskToStarttime, overdue s now k = false) :
    iterateLifetime s now =
      some ({ s with taskToRemainingTime := (startOrder s).foldl touch s.taskToRemainingTime }, startOrder s) := by
  have ends : iterateLifetime s now = some ((startOrder s).foldl (checkTask now) s, startOrder s) :=
    Walk.forEach_ends (P := Unswept s now) (fun t unswept => unswept.order) (startOrder_sorted s)
      (fun t unswept k member => unswept.visit (early k (mem_startOrder.mp member))) ⟨rfl, fun _ => rfl⟩
  have turns : ∀ (L : List UInt32) (t : Registry), Unswept s now t → (∀ k ∈ L, overdue s now k = false) →
      L.foldl (checkTask now) t = { t with taskToRemainingTime := L.foldl touch t.taskToRemainingTime } := by
    intro L
    induction L with
    | nil => exact fun _ _ _ => rfl
    | cons k L ih =>
      intro t unswept early
      rw [List.forall_mem_cons] at early
      rw [List.foldl_cons, ih _ (unswept.visit early.1) early.2, checkTask_in_time (unswept.same k ▸ early.1)]
      rfl
  rw [ends, turns _ s ⟨rfl, fun _ => rfl⟩ fun k member => early k (mem_startOrder.mp member)]

theorem early_of_ends {t : Registry} {visited : List UInt32} (done : iterateLifetime s now = some (t, visited)) :
    ∀ k ∈ s.taskToStarttime, overdue s now k = false := by
  intro k started
  by_contra late
  rw [iterate_undefined ⟨k, started, by simpa using late⟩] at done
  cases done

/-- The sweep over the keys that there were is what a loop that ends has done. -/
theorem iterate_refines (known : ∀ k ∈ s.taskToStarttime, k ∈ s.taskToRemainingTime) {t : Registry}
    {visited : List UInt32} (done : iterateLifetime s now = some (t, visited)) : t = checkTasksLifetime s now := by
  have early := early_of_ends done
  rw [iterate_ends early] at done
  cases done
  have touches : ∀ L : List UInt32, (∀ k ∈ L, k ∈ s.taskToRemainingTime) →
      L.foldl touch s.taskToRemainingTime = s.taskToRemainingTime := by
    intro L known
    induction L with
    | nil => rfl
    | cons k L ih =>
      rw [List.forall_mem_cons] at known
      rw [List.foldl_cons, touch, if_pos known.1, ih known.2]
  have sweeps : ∀ L : List UInt32, (∀ k ∈ L, overdue s now k = false) → L.foldl (sweepOne now fun _ => true) s = s := by
    intro L early
    induction L with
    | nil => rfl
    | cons k L ih =>
      rw [List.forall_mem_cons] at early
      have still : sweepOne now (fun _ => true) s k = s := by simp [sweepOne, early.1]
      rw [List.foldl_cons, still, ih early.2]
  rw [touches _ fun k member => known k (mem_startOrder.mp member), checkTasksLifetime, sweep,
    sweeps _ fun k member => early k (AList.mem_keys.mpr member)]

/-- A sweep is as it should be where it has nothing to do. -/
theorem lifetime_sweeps_iff (s : Registry) (now : Int) :
    (∃ t visited, iterateLifetime s now = some (t, visited) ∧ Sweeps s now t visited) ↔
      ∀ k ∈ s.taskToStarttime, overdue s now k = false ∧ k ∈ s.taskToRemainingTime := by
  constructor
  · rintro ⟨t, visited, done, sweeps⟩
    have early := early_of_ends done
    rw [iterate_ends early] at done
    cases done
    intro k started
    refine ⟨early k started, ?_⟩
    by_contra missing
    have marked := sweeps.marked k
    rw [early k started, lookup_touches, if_pos ⟨mem_startOrder.mpr started, missing⟩, AList.lookup_eq_none.mpr missing]
      at marked
    cases marked
  · intro quiet
    have early : ∀ k ∈ s.taskToStarttime, overdue s now k = false := fun k started => (quiet k started).1
    have never : ∀ k, overdue s now k = false := by
      intro k
      by_cases started : k ∈ s.taskToStarttime
      · exact early k started
      · simp [overdue, AList.lookup_eq_none.mpr started]
    refine ⟨_, _, iterate_ends early, startOrder_nodup s, fun k => mem_startOrder, ?_, ?_, ?_, rfl⟩
    · intro k
      rw [never k]
      rfl
    · intro k
      rw [never k, lookup_touches, if_neg]
      · rfl
      · rintro ⟨member, missing⟩
        exact missing (quiet k (mem_startOrder.mp member)).2
    · have none_late : s.taskToStarttime.keys.filter (overdue s now) = [] := by simp [never]
      rw [none_late]
      exact (UInt32.sub_zero s.numTasks).symm

/-- A task is registered for 0 seconds, and swept after four. -/
theorem overdue_undefined : (7 : UInt32) ∈ (stateAfter [.register 7 0 0 true]).taskToStarttime ∧
    overdue (stateAfter [.register 7 0 0 true]) 4000000000 7 = true ∧
    iterateLifetime (stateAfter [.register 7 0 0 true]) 4000000000 = none := by
  refine ⟨by decide, by decide, by decide⟩

end TaskRegistry

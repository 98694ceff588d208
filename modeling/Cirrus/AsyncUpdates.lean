import Cirrus.Lib.Transition
import Cirrus.GradientCells
import Mathlib.Algebra.Order.Group.Multiset
import Mathlib.Algebra.BigOperators.Ring.List
import Mathlib.Algebra.Ring.Int.Defs
import Mathlib.Tactic.Abel

/-!
The worker threads of the server, which take gradients from one queue and add
them to one model under `model_lock`. Each `+=` is a read and a write of its
own: it is the lock that keeps another thread from coming between the two.
-/
namespace AsyncUpdates
open Gradients SparseLR MF Transition
variable {I G M C F : Type}

/-- The model that gradients are added to, and what a gradient adds to it. -/
structure Updates (G M C F : Type) where
  cells : Cells M C F
  additions : G → List (C × F)

/-- Where a thread is. `storing` holds the value that was read. -/
inductive Place (G C F : Type)
  | idle
  | locking (g : G)
  | updating (rest : List (C × F))
  | storing (e : C × F) (value : F) (rest : List (C × F))
  | counting
  deriving DecidableEq

/-- `received` is a history: the gradients in the order in which they came in. -/
structure State (I G M C F : Type) where
  toProcess : List G := []
  place : I → Place G C F := fun _ => .idle
  modelLock : Bool := false
  model : M
  gradientUpdatesCount : UInt64 := 0
  received : List G := []

inductive Label (I G : Type)
  | request (g : G)
  | thread (i : I)

section Steps
variable [DecidableEq I] [Add F]

def Updates.threadStep (u : Updates G M C F) (s : State I G M C F) (i : I) : Option (State I G M C F) :=
  let goes (p : Place G C F) (s : State I G M C F) := { s with place := Function.update s.place i p }
  match s.place i with
  | .idle =>
    match s.toProcess with
    | [] => none
    | g :: rest => some (goes (.locking g) { s with toProcess := rest })
  | .locking g => if s.modelLock then none else some (goes (.updating (u.additions g)) { s with modelLock := true })
  | .updating [] => some (goes .counting { s with modelLock := false })
  | .updating (e :: rest) => (u.cells.load s.model e.1).map fun value => goes (.storing e value rest) s
  | .storing e value rest => some (goes (.updating rest) { s with model := u.cells.store s.model e.1 (value + e.2) })
  | .counting => some (goes .idle { s with gradientUpdatesCount := s.gradientUpdatesCount + 1 })

def Updates.step (u : Updates G M C F) (s : State I G M C F) : Label I G → Option (State I G M C F)
  | .request g => some { s with toProcess := s.toProcess ++ [g], received := s.received ++ [g] }
  | .thread i => u.threadStep s i

end Steps

def AtStart (m : M) (s : State I G M C F) : Prop := s = { model := m }

structure Quiet (s : State I G M C F) : Prop where
  processed : s.toProcess = []
  idle : ∀ i, s.place i = .idle

namespace Place

def left (u : Updates G M C F) : Place G C F → List (C × F)
  | idle | counting => []
  | locking g => u.additions g
  | updating rest => rest
  | storing e _ rest => e :: rest

def uncounted : Place G C F → Nat
  | idle => 0
  | _ => 1

def Holds : Place G C F → Prop
  | updating _ | storing _ _ _ => True
  | _ => False

end Place

section Threads
variable [Fintype I] [DecidableEq I]

inductive Moves [Add F] (u : Updates G M C F) (s : State I G M C F) (i : I) : State I G M C F → Prop where
  | take {g : G} {rest : List G} (here : s.place i = .idle) (queue : s.toProcess = g :: rest) :
      Moves u s i { s with toProcess := rest, place := Function.update s.place i (.locking g) }
  | lock {g : G} (here : s.place i = .locking g) (free : s.modelLock = false) :
      Moves u s i { s with modelLock := true, place := Function.update s.place i (.updating (u.additions g)) }
  | load {e : C × F} {rest : List (C × F)} {value : F} (here : s.place i = .updating (e :: rest))
      (loaded : u.cells.load s.model e.1 = some value) :
      Moves u s i { s with place := Function.update s.place i (.storing e value rest) }
  | store {e : C × F} {rest : List (C × F)} {value : F} (here : s.place i = .storing e value rest) :
      Moves u s i { s with
        model := u.cells.store s.model e.1 (value + e.2)
        place := Function.update s.place i (.updating rest) }
  | unlock (here : s.place i = .updating []) :
      Moves u s i { s with modelLock := false, place := Function.update s.place i .counting }
  | count (here : s.place i = .counting) :
      Moves u s i { s with
        gradientUpdatesCount := s.gradientUpdatesCount + 1
        place := Function.update s.place i .idle }

omit [Fintype I] in
theorem threadStep_moves [Add F] {u : Updates G M C F} {s t : State I G M C F} {i : I}
    (taken : u.threadStep s i = some t) : Moves u s i t := by
  unfold Updates.threadStep at taken
  dsimp only at taken
  split at taken
  case h_1 here =>
    split at taken
    next => cases taken
    next queue =>
      obtain rfl := Option.some.inj taken
      exact .take here queue
  case h_2 here =>
    split at taken
    next => cases taken
    next free =>
      obtain rfl := Option.some.inj taken
      exact .lock here (by simpa using free)
  case h_3 here =>
    obtain rfl := Option.some.inj taken
    exact .unlock here
  case h_4 here =>
    obtain ⟨value, loaded, rfl⟩ := Option.map_eq_some_iff.mp taken
    exact .load here loaded
  case h_5 here =>
    obtain rfl := Option.some.inj taken
    exact .store here
  case h_6 here =>
    obtain rfl := Option.some.inj taken
    exact .count here

/-- One thread at most is between `lock` and `unlock`, and a value that was read is still there. -/
structure Guarded (u : Updates G M C F) (s : State I G M C F) : Prop where
  locked : ∀ i, (s.place i).Holds → s.modelLock = true
  one : ∀ i j, (s.place i).Holds → (s.place j).Holds → i = j
  loaded : ∀ i e value rest, s.place i = .storing e value rest → u.cells.load s.model e.1 = some value

omit [Fintype I] in
theorem holds_update {place : I → Place G C F} {i j : I} {p : Place G C F} (quiet : ¬ p.Holds)
    (holds : (Function.update place i p j).Holds) : j ≠ i ∧ (place j).Holds := by
  by_cases same : j = i
  · subst same
    rw [Function.update_self] at holds
    exact (quiet holds).elim
  · rw [Function.update_of_ne same] at holds
    exact ⟨same, holds⟩

omit [Fintype I] in
theorem holds_of_update {place : I → Place G C F} {i j : I} {p : Place G C F} (held : (place i).Holds)
    (holds : (Function.update place i p j).Holds) : (place j).Holds := by
  by_cases same : j = i
  · rwa [same]
  · rwa [Function.update_of_ne same] at holds

omit [Fintype I] in
theorem loaded_update {u : Updates G M C F} {m : M} {place : I → Place G C F} {i : I} {p : Place G C F}
    (loaded : ∀ j e value rest, place j = .storing e value rest → u.cells.load m e.1 = some value)
    (here : ∀ e value rest, p = .storing e value rest → u.cells.load m e.1 = some value) (j : I) (e : C × F)
    (value : F) (rest : List (C × F)) (storing : Function.update place i p j = .storing e value rest) :
    u.cells.load m e.1 = some value := by
  by_cases same : j = i
  · subst same
    rw [Function.update_self] at storing
    exact here e value rest storing
  · rw [Function.update_of_ne same] at storing
    exact loaded j e value rest storing

omit [Fintype I] in
theorem guarded_moves [Add F] {u : Updates G M C F} {s t : State I G M C F} {i : I} (guarded : Guarded u s)
    (move : Moves u s i t) : Guarded u t := by
  obtain ⟨locked, one, loaded⟩ := guarded
  cases move with
  | take here queue =>
    refine ⟨fun j holds => locked j (holds_update id holds).2, ?_, loaded_update loaded nofun⟩
    exact fun j k first second => one j k (holds_update id first).2 (holds_update id second).2
  | @lock g here free =>
    have none : ∀ j, ¬ (s.place j).Holds := by
      intro j holds
      rw [locked j holds] at free
      cases free
    have only : ∀ j, (Function.update s.place i (.updating (u.additions g)) j).Holds → j = i := by
      intro j holds
      by_contra other
      rw [Function.update_of_ne other] at holds
      exact none j holds
    exact ⟨fun _ _ => rfl, fun j k first second => (only j first).trans (only k second).symm,
      loaded_update loaded nofun⟩
  | load here found =>
    have held : (s.place i).Holds := by rw [here]; trivial
    refine ⟨fun j holds => locked j (holds_of_update held holds), ?_, loaded_update loaded ?_⟩
    · exact fun j k first second => one j k (holds_of_update held first) (holds_of_update held second)
    · rintro _ _ _ ⟨⟩
      exact found
  | @store e rest value here =>
    have held : (s.place i).Holds := by rw [here]; trivial
    refine ⟨fun j holds => locked j (holds_of_update held holds), ?_, ?_⟩
    · exact fun j k first second => one j k (holds_of_update held first) (holds_of_update held second)
    · -- no other thread holds a value that it has read
      intro j e' value' rest' storing
      dsimp only at storing
      by_cases same : j = i
      · subst same
        rw [Function.update_self] at storing
        cases storing
      · rw [Function.update_of_ne same] at storing
        have holds : (s.place j).Holds := by rw [storing]; trivial
        exact (same (one j i holds held)).elim
  | unlock here =>
    have held : (s.place i).Holds := by rw [here]; trivial
    have none : ∀ j, ¬ (Function.update s.place i .counting j).Holds := by
      intro j holds
      obtain ⟨other, holds⟩ := holds_update id holds
      exact other (one j i holds held)
    exact ⟨fun j holds => (none j holds).elim, fun j k first _ => (none j first).elim, loaded_update loaded nofun⟩
  | count here =>
    refine ⟨fun j holds => locked j (holds_update id holds).2, ?_, loaded_update loaded nofun⟩
    exact fun j k first second => one j k (holds_update id first).2 (holds_update id second).2

structure Accounted [Add F] (u : Updates G M C F) (m : M) (s : State I G M C F) : Prop where
  added : ∃ done : List (C × F), s.model = u.cells.addAll m done ∧
    (done : Multiset (C × F)) + ∑ i, ((s.place i).left u : Multiset (C × F)) + s.toProcess.flatMap u.additions =
      s.received.flatMap u.additions
  counted : ∃ handled : Nat, s.gradientUpdatesCount = UInt64.ofNat handled ∧
    handled + ∑ i, (s.place i).uncounted + s.toProcess.length = s.received.length

theorem accounted_moves [Add F] {u : Updates G M C F} {m : M} {s t : State I G M C F} {i : I}
    (guarded : Guarded u s) (accounted : Accounted u m s) (move : Moves u s i t) : Accounted u m t := by
  obtain ⟨⟨done, model, all⟩, ⟨handled, count, number⟩⟩ := accounted
  obtain ⟨others, before, after⟩ := sum_moves (fun p => (p.left u : Multiset (C × F))) s.place i
  obtain ⟨others', before', after'⟩ := sum_moves Place.uncounted s.place i
  rw [before] at all
  rw [before'] at number
  cases move with
  | @take g rest here queue =>
    constructor
    · refine ⟨done, model, ?_⟩
      rw [← all, after, here, queue]
      simp only [Place.left, List.flatMap_cons, ← Multiset.coe_add, Multiset.coe_nil]
      abel
    · refine ⟨handled, count, ?_⟩
      rw [← number, after', here, queue]
      simp only [Place.uncounted, List.length_cons]
      omega
  | lock here free =>
    constructor
    · refine ⟨done, model, ?_⟩
      rw [← all, after, here]
      rfl
    · refine ⟨handled, count, ?_⟩
      rw [← number, after', here]
      rfl
  | load here found =>
    constructor
    · refine ⟨done, model, ?_⟩
      rw [← all, after, here]
      rfl
    · refine ⟨handled, count, ?_⟩
      rw [← number, after', here]
      rfl
  | @store e rest value here =>
    constructor
    · refine ⟨done ++ [e], ?_, ?_⟩
      · have found := guarded.loaded i e value rest here
        rw [u.cells.addAll_append, ← model]
        exact (u.cells.add_of_load found).symm
      · rw [← all, after, here]
        have split : ((e :: rest : List (C × F)) : Multiset (C × F)) = ↑[e] + ↑rest := rfl
        simp only [Place.left, split, ← Multiset.coe_add]
        abel
    · refine ⟨handled, count, ?_⟩
      rw [← number, after', here]
      rfl
  | unlock here =>
    constructor
    · refine ⟨done, model, ?_⟩
      rw [← all, after, here]
      rfl
    · refine ⟨handled, count, ?_⟩
      rw [← number, after', here]
      rfl
  | count here =>
    constructor
    · refine ⟨done, model, ?_⟩
      rw [← all, after, here]
      rfl
    · refine ⟨handled + 1, ?_, ?_⟩
      · rw [count, UInt64.ofNat_add]
        rfl
      · rw [← number, after', here]
        simp only [Place.uncounted]
        omega

theorem inv_step [Add F] {u : Updates G M C F} {m : M} {s t : State I G M C F} {l : Label I G}
    (inv : Guarded u s ∧ Accounted u m s) (taken : u.step s l = some t) : Guarded u t ∧ Accounted u m t := by
  obtain ⟨guarded, accounted⟩ := inv
  cases l with
  | request g =>
    obtain rfl := Option.some.inj taken
    obtain ⟨⟨done, model, all⟩, ⟨handled, count, number⟩⟩ := accounted
    refine ⟨⟨guarded.locked, guarded.one, guarded.loaded⟩, ⟨done, model, ?_⟩, ⟨handled, count, ?_⟩⟩
    · simp only [List.flatMap_append, ← Multiset.coe_add, ← all]
      abel
    · simp only [List.length_append, List.length_singleton]
      omega
  | thread i =>
    have move := threadStep_moves taken
    exact ⟨guarded_moves guarded move, accounted_moves guarded accounted move⟩

theorem inv_reachable [Add F] {u : Updates G M C F} {m : M} {s : State I G M C F}
    (reached : Reachable u.step (AtStart m) anyStep s) : Guarded u s ∧ Accounted u m s := by
  apply reached.invariant
  · rintro _ rfl
    refine ⟨⟨nofun, nofun, nofun⟩, ⟨[], rfl, ?_⟩, ⟨0, rfl, ?_⟩⟩
    · simp [Place.left]
    · simp [Place.uncounted]
  · exact fun _ _ _ inv _ taken => inv_step inv taken

structure Summed [DecidableEq C] [AddCommMonoid F] (u : Updates G M C F) (m : M) (s : State I G M C F) : Prop where
  model : s.model = u.cells.addAll m (s.received.flatMap u.additions)
  sums : ∀ c, u.cells.load s.model c =
    (u.cells.load m c).map (· + (((s.received.flatMap u.additions).filter fun e => e.1 = c).map Prod.snd).sum)
  count : s.gradientUpdatesCount = UInt64.ofNat s.received.length

theorem summed [DecidableEq C] [AddCommMonoid F] {u : Updates G M C F} {m : M} {s : State I G M C F}
    (reached : Reachable u.step (AtStart m) anyStep s) (quiet : Quiet s) : Summed u m s := by
  obtain ⟨_, ⟨done, model, all⟩, ⟨handled, count, number⟩⟩ := inv_reachable reached
  have permuted : done.Perm (s.received.flatMap u.additions) := by
    rw [← Multiset.coe_eq_coe, ← all]
    simp [quiet.processed, quiet.idle, Place.left]
  have total : s.model = u.cells.addAll m (s.received.flatMap u.additions) := by
    rw [model]
    exact u.cells.addAll_perm permuted m
  have everything : handled = s.received.length := by
    rw [← number]
    simp [quiet.processed, quiet.idle, Place.uncounted]
  refine ⟨total, ?_, by rw [count, everything]⟩
  intro c
  rw [total, u.cells.load_addAll]
  congr 1
  funext x
  exact Cells.sumFor_eq_sum x c _

theorem never_outside [DecidableEq C] [AddCommMonoid F] {u : Updates G M C F} {m : M} {s : State I G M C F}
    (reached : Reachable u.step (AtStart m) anyStep s)
    (inside : ∀ g ∈ s.received, ∀ e ∈ u.additions g, (u.cells.load m e.1).isSome) {i : I} {e : C × F}
    {rest : List (C × F)} (here : s.place i = .updating (e :: rest)) : (u.cells.load s.model e.1).isSome := by
  obtain ⟨_, ⟨done, model, all⟩, _⟩ := inv_reachable reached
  obtain ⟨others, work, _⟩ := sum_moves (fun p => (p.left u : Multiset (C × F))) s.place i
  have member : e ∈ ((s.received.flatMap u.additions : List (C × F)) : Multiset (C × F)) := by
    rw [← all, work, here]
    simp [Place.left]
  obtain ⟨g, came, added⟩ := List.mem_flatMap.mp (Multiset.mem_coe.mp member)
  rw [model, u.cells.load_addAll_isSome]
  exact inside g came e added

end Threads

theorem same_model {I' : Type} [Fintype I] [DecidableEq I] [Fintype I'] [DecidableEq I'] [DecidableEq C]
    [AddCommMonoid F] {u : Updates G M C F} {m : M} {s : State I G M C F} {s' : State I' G M C F}
    (summed : Summed u m s) (summed' : Summed u m s') (same : s.received.Perm s'.received) : s.model = s'.model := by
  rw [summed.model, summed'.model]
  exact u.cells.addAll_perm (same.flatMap_right u.additions) m

def lrUpdates [Mul F] (learningRate : F) : Updates (LRSparseGradient F) (SparseLRModel F) Nat F where
  cells := SparseLRModel.cells F
  additions g := g.weights.map fun e => (cell e.1, learningRate * e.2)

def mfUpdates (nfactors : UInt64) : Updates (MFSparseGradient F) (MFModel F) Parameter F where
  cells := MFModel.cells F
  additions := MF.additions nfactors

theorem lr_sgdUpdate [One F] [Add F] [Sub F] [Mul F] [Div F] [FloatOps F] {learningRate : F} {m : SparseLRModel F}
    {g : LRSparseGradient F} {t : OptimizationMethod F × SparseLRModel F}
    (done : (OptimizationMethod.sgd learningRate).sgdUpdate m g = .ok t) :
    t = (.sgd learningRate, (lrUpdates learningRate).cells.addAll m ((lrUpdates learningRate).additions g)) := by
  unfold OptimizationMethod.sgdUpdate at done
  unfold lrUpdates
  dsimp only
  generalize g.weights = entries at done ⊢
  induction entries generalizing m with
  | nil =>
    cases done
    rfl
  | cons e rest ih =>
    rw [List.foldlM_cons] at done
    obtain ⟨next, one, done⟩ := Loops.ok_of_bind done
    obtain ⟨v, added, same⟩ := Loops.ok_of_bind one
    cases same
    obtain ⟨x, found, rfl⟩ := addAt_ok.mp added
    rw [ih done, List.map_cons]
    have first : (SparseLRModel.cells F).add m (cell e.1, learningRate * e.2) =
        { m with weights := m.weights.set (cell e.1) (x + learningRate * e.2) } :=
      (SparseLRModel.cells F).add_of_load (e := (cell e.1, learningRate * e.2)) found
    rw [Cells.addAll, Cells.addAll, List.foldl_cons, first]

theorem mf_sgdUpdate [Add F] {m t : MFModel F} {g : MFSparseGradient F} (done : m.sgdUpdate g = .ok t) :
    t = (mfUpdates m.nfactors).cells.addAll m ((mfUpdates m.nfactors).additions g) := by
  rw [MFModel.sgdUpdate_accesses] at done
  exact (MFModel.accesses_ok.mp done).2

theorem lr_sum [CommRing F] (learningRate : F) (gradients : List (LRSparseGradient F)) (i : Nat) :
    (((gradients.flatMap (lrUpdates learningRate).additions).filter fun e => e.1 = i).map Prod.snd).sum =
      learningRate * (((gradients.flatMap (·.weights)).filter fun e => cell e.1 = i).map Prod.snd).sum := by
  have additions : gradients.flatMap (lrUpdates learningRate).additions =
      (gradients.flatMap (·.weights)).map fun e => (cell e.1, learningRate * e.2) := List.map_flatMap.symm
  rw [additions, List.filter_map, List.map_map, ← List.sum_map_mul_left]
  rfl

section Example

def firstGradient : LRSparseGradient ℤ := { weights := [(0, 1)], version := 0 }

def secondGradient : LRSparseGradient ℤ := { weights := [(0, 2), (1, 3)], version := 0 }

def twoWeights : SparseLRModel ℤ := { weights := [10, 20], weightsHist := [0, 0] }

end Example
end AsyncUpdates

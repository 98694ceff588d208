import Cirrus.Exact
import Cirrus.Lib.Loops
import Mathlib.Algebra.Field.Rat

/-!
The order of the entries of a gradient. SGD and AdaGrad keep their state in the
cell of an entry, so that entries with different indices do not see each other;
Momentum and Nesterov carry one average from each entry to the next.
-/
namespace EntryOrder
open Gradients SparseLR OptimizationMethod Loops
variable {F : Type}

def OrderFree [One F] [Add F] [Sub F] [Mul F] [Div F] [FloatOps F] (method : OptimizationMethod F) (m : SparseLRModel F)
    (g : LRSparseGradient F) : Prop :=
  ∀ entries, g.weights.Perm entries → method.sgdUpdate m { g with weights := entries } = method.sgdUpdate m g

section Cells
variable [Add F] {v : List F} {i j : Nat}

theorem addAt_of_le (outside : v.length ≤ i) (x : F) : addAt v i x = .error .undefined := by
  rw [addAt, at', List.getElem?_eq_none outside]
  rfl

theorem addAt_comm (apart : i ≠ j) (x y : F) :
    (addAt v i x >>= fun v' => addAt v' j y) = (addAt v j y >>= fun v' => addAt v' i x) := by
  rcases Nat.lt_or_ge i v.length with inside | outside
  · rcases Nat.lt_or_ge j v.length with inside' | outside'
    · rw [addAt_of_lt inside, addAt_of_lt inside']
      refine (bind_of_ok rfl _).trans (Eq.trans ?_ (bind_of_ok rfl _).symm)
      rw [addAt_of_lt (by rwa [List.length_set]), addAt_of_lt (by rwa [List.length_set]),
        List.getElem_set_ne apart, List.getElem_set_ne (Ne.symm apart), List.set_comm _ _ apart]
    · rw [addAt_of_lt inside, addAt_of_le outside']
      exact (bind_of_ok rfl _).trans (addAt_of_le (by rwa [List.length_set]) y)
  · rcases Nat.lt_or_ge j v.length with inside' | outside'
    · rw [addAt_of_le outside, addAt_of_lt inside']
      exact (Eq.trans (bind_of_ok rfl _) (addAt_of_le (by rwa [List.length_set]) x)).symm
    · rw [addAt_of_le outside, addAt_of_le outside']
      rfl

end Cells

theorem cells_apart {entries : List (Int32 × F)} (distinct : (entries.map (·.1)).Nodup) {e e' : Int32 × F}
    (member : e ∈ entries) (member' : e' ∈ entries) : e = e' ∨ cell e.1 ≠ cell e'.1 := by
  by_cases same : cell e.1 = cell e'.1
  · exact .inl (List.inj_on_of_nodup_map distinct member member' (cell_injective same))
  · exact .inr same

section OwnState
variable [Add F] [Mul F] [Div F] [FloatOps F] {learningRate adagradEpsilon : F}

def squareAndMove (learningRate adagradEpsilon : F) (s : List F × List F) (e : Int32 × F) : Except Fault (List F × List F) := do
  let weightsHist ← addAt s.1 (cell e.1) (e.2 * e.2)
  let hist ← at' weightsHist (cell e.1)
  let weights ← addAt s.2 (cell e.1) (learningRate * e.2 / (adagradEpsilon + FloatOps.sqrt hist))
  pure (weightsHist, weights)

def Has (s : List F × List F) (e : Int32 × F) : Prop := cell e.1 < s.1.length ∧ cell e.1 < s.2.length

omit [Add F] [Mul F] [Div F] [FloatOps F] in
theorem has_set {s : List F × List F} {e : Int32 × F} (i j : Nat) (x y : F) :
    Has (s.1.set i x, s.2.set j y) e ↔ Has s e := by
  rw [Has, Has, List.length_set, List.length_set]

theorem squareAndMove_of_has {s : List F × List F} {e : Int32 × F} (there : Has s e) :
    squareAndMove learningRate adagradEpsilon s e = .ok (s.1.set (cell e.1) (s.1.get ⟨cell e.1, there.1⟩ + e.2 * e.2),
      s.2.set (cell e.1) (s.2.get ⟨cell e.1, there.2⟩ + learningRate * e.2 /
        (adagradEpsilon + FloatOps.sqrt (s.1.get ⟨cell e.1, there.1⟩ + e.2 * e.2)))) := by
  obtain ⟨first, second⟩ := there
  have stored := at'_ok.mpr (List.getElem?_set_self (a := s.1[cell e.1] + e.2 * e.2) first)
  rw [squareAndMove, addAt_of_lt first]
  refine (bind_of_ok rfl _).trans ((bind_of_ok stored _).trans ?_)
  exact bind_of_ok (addAt_of_lt second _) _

theorem squareAndMove_of_not {s : List F × List F} {e : Int32 × F} (absent : ¬ Has s e) :
    squareAndMove learningRate adagradEpsilon s e = .error .undefined := by
  rw [squareAndMove]
  rcases Nat.lt_or_ge (cell e.1) s.1.length with first | outside
  · have second : s.2.length ≤ cell e.1 := Nat.le_of_not_lt fun second => absent ⟨first, second⟩
    have stored := at'_ok.mpr (List.getElem?_set_self (a := s.1[cell e.1] + e.2 * e.2) first)
    rw [addAt_of_lt first]
    refine (bind_of_ok rfl _).trans ((bind_of_ok stored _).trans ?_)
    rw [addAt_of_le second]
    rfl
  · rw [addAt_of_le outside]
    rfl

theorem squareAndMove_comm {e e' : Int32 × F} (apart : cell e.1 ≠ cell e'.1) (s : List F × List F) :
    (squareAndMove learningRate adagradEpsilon s e >>= fun t => squareAndMove learningRate adagradEpsilon t e') =
      (squareAndMove learningRate adagradEpsilon s e' >>= fun t => squareAndMove learningRate adagradEpsilon t e) := by
  by_cases there : Has s e
  · by_cases there' : Has s e'
    · rw [bind_of_ok (squareAndMove_of_has there), bind_of_ok (squareAndMove_of_has there'),
        squareAndMove_of_has ((has_set _ _ _ _).mpr there'), squareAndMove_of_has ((has_set _ _ _ _).mpr there)]
      simp only [List.get_eq_getElem, List.getElem_set_ne apart, List.getElem_set_ne (Ne.symm apart), List.set_comm _ _ apart]
    · rw [bind_of_ok (squareAndMove_of_has there), bind_of_error (squareAndMove_of_not there')]
      exact squareAndMove_of_not fun still => there' ((has_set _ _ _ _).mp still)
  · by_cases there' : Has s e'
    · rw [bind_of_error (squareAndMove_of_not there), bind_of_ok (squareAndMove_of_has there')]
      exact (squareAndMove_of_not fun still => there ((has_set _ _ _ _).mp still)).symm
    · rw [bind_of_error (squareAndMove_of_not there), bind_of_error (squareAndMove_of_not there')]

end OwnState

section Orders
variable [One F] [Add F] [Sub F] [Mul F] [Div F] [FloatOps F] (m : SparseLRModel F) {g : LRSparseGradient F}

theorem sgd_orderFree (learningRate : F) (distinct : (g.weights.map (·.1)).Nodup) : OrderFree (.sgd learningRate) m g := by
  let put := fun v : List F => (OptimizationMethod.sgd learningRate, { m with weights := v })
  have loop : ∀ entries, sgdUpdate (.sgd learningRate) m { g with weights := entries } =
      (entries.foldlM (fun v e => addAt v (cell e.1) (learningRate * e.2)) m.weights).map put := by
    intro entries
    refine foldlM_focus put ?_ entries m.weights
    intro v e
    exact bind_pure_eq_map (addAt v _ _) put
  intro entries perm
  refine (loop entries).trans (Eq.trans ?_ (loop g.weights).symm)
  rw [foldlM_perm perm]
  intro e member e' member' v
  rcases cells_apart distinct member member' with rfl | apart
  · rfl
  · exact addAt_comm apart _ _

theorem adaGrad_orderFree (learningRate adagradEpsilon : F) (distinct : (g.weights.map (·.1)).Nodup) :
    OrderFree (.adaGrad learningRate adagradEpsilon) m g := by
  let put := fun s : List F × List F =>
    (OptimizationMethod.adaGrad learningRate adagradEpsilon, { m with weightsHist := s.1, weights := s.2 })
  have loop : ∀ entries, sgdUpdate (.adaGrad learningRate adagradEpsilon) m { g with weights := entries } =
      (entries.foldlM (squareAndMove learningRate adagradEpsilon) (m.weightsHist, m.weights)).map put := by
    intro entries
    refine foldlM_focus put ?_ entries (m.weightsHist, m.weights)
    intro s e
    rw [squareAndMove, ← bind_pure_eq_map]
    simp only [bind_assoc, pure_bind]
    rfl
  intro entries perm
  refine (loop entries).trans (Eq.trans ?_ (loop g.weights).symm)
  rw [foldlM_perm perm]
  intro e member e' member' s
  rcases cells_apart distinct member member' with rfl | apart
  · rfl
  · exact squareAndMove_comm apart s

end Orders

section Average
variable [One F] [Add F] [Sub F] [Mul F] [FloatOps F] {learningRate momentumBeta : F}

def carry (learningRate momentumBeta : F) (s : F × List F) (e : Int32 × F) : Except Fault (F × List F) := do
  let avg := average learningRate momentumBeta s.1 e.2
  pure (avg, ← addAt s.2 (cell e.1) avg)

theorem carry_map {R : Type} (put : F × List F → R) (s : F × List F) (e : Int32 × F) :
    (carry learningRate momentumBeta s e).map put =
      (addAt s.2 (cell e.1) (average learningRate momentumBeta s.1 e.2) >>= fun v =>
        pure (put (average learningRate momentumBeta s.1 e.2, v))) := by
  rw [carry]
  cases addAt s.2 (cell e.1) (average learningRate momentumBeta s.1 e.2) with
  | ok v => rfl
  | error fault => rfl

def averageAfter (learningRate momentumBeta : F) : F → List (Int32 × F) → F :=
  List.foldl fun avg e => average learningRate momentumBeta avg e.2

theorem averageAfter_concat (avg : F) (l : List (Int32 × F)) (e : Int32 × F) :
    averageAfter learningRate momentumBeta avg (l ++ [e]) =
      average learningRate momentumBeta (averageAfter learningRate momentumBeta avg l) e.2 := List.foldl_concat ..

theorem carry_gives (learningRate momentumBeta : F) {l : List (Int32 × F)} (avg : F) {v : List F} (inside : ∀ e ∈ l, cell e.1 < v.length) :
    ∃ v', l.foldlM (carry learningRate momentumBeta) (avg, v) = .ok (averageAfter learningRate momentumBeta avg l, v') ∧
      v'.length = v.length ∧ ∀ i, (∀ e ∈ l, cell e.1 ≠ i) → v'[i]? = v[i]? := by
  induction l generalizing avg v with
  | nil => exact ⟨v, rfl, rfl, fun _ _ => rfl⟩
  | cons e rest ih =>
    have here := inside e List.mem_cons_self
    let next := average learningRate momentumBeta avg e.2
    obtain ⟨v', done, length, others⟩ := ih next (v := v.set (cell e.1) (v[cell e.1] + next)) (by
      intro e' member
      rw [List.length_set]
      exact inside e' (List.mem_cons_of_mem e member))
    refine ⟨v', ?_, length.trans List.length_set, fun i apart => ?_⟩
    · rw [List.foldlM_cons, carry, addAt_of_lt here]
      exact done
    · rw [List.forall_mem_cons] at apart
      rw [others i apart.2, List.getElem?_set_ne apart.1]

theorem carry_value (learningRate momentumBeta : F) {l r : List (Int32 × F)} {e : Int32 × F} (avg : F) {v : List F}
    (inside : ∀ e' ∈ l ++ e :: r, cell e'.1 < v.length) (distinct : ((l ++ e :: r).map (·.1)).Nodup) :
    ∃ v', (l ++ e :: r).foldlM (carry learningRate momentumBeta) (avg, v) =
        .ok (averageAfter learningRate momentumBeta avg (l ++ e :: r), v') ∧
      v'[cell e.1]? = v[cell e.1]?.map
        (· + average learningRate momentumBeta (averageAfter learningRate momentumBeta avg l) e.2) := by
  have apart : ∀ e' ∈ l ++ r, cell e'.1 ≠ cell e.1 := by
    intro e' member same
    have once := distinct
    rw [List.map_append, List.map_cons, List.nodup_middle, List.nodup_cons, ← List.map_append] at once
    exact once.1 (List.mem_map.mpr ⟨e', member, cell_injective same⟩)
  rw [List.forall_mem_append, List.forall_mem_cons] at inside
  obtain ⟨before, here, later⟩ := inside
  obtain ⟨v₁, done₁, length₁, others₁⟩ := carry_gives learningRate momentumBeta avg before
  let next := average learningRate momentumBeta (averageAfter learningRate momentumBeta avg l) e.2
  have here' : cell e.1 < v₁.length := length₁ ▸ here
  obtain ⟨v₂, done₂, length₂, others₂⟩ := carry_gives learningRate momentumBeta next
    (l := r) (v := v₁.set (cell e.1) (v₁[cell e.1] + next)) (by
      intro e' member
      rw [List.length_set, length₁]
      exact later e' member)
  have untouched := others₁ (cell e.1) fun e' member => apart e' (List.mem_append_left r member)
  refine ⟨v₂, ?_, ?_⟩
  · rw [List.foldlM_append, bind_of_ok done₁, List.foldlM_cons, carry, addAt_of_lt here', averageAfter, List.foldl_append]
    exact done₂
  · rw [others₂ (cell e.1) fun e' member => apart e' (List.mem_append_right l member), List.getElem?_set_self here', ← untouched,
      List.getElem?_eq_getElem here']
    rfl

theorem carry_outside {l : List (Int32 × F)} (avg : F) {v : List F} (outside : ∃ e ∈ l, v.length ≤ cell e.1) :
    l.foldlM (carry learningRate momentumBeta) (avg, v) = .error .undefined := by
  induction l generalizing avg v with
  | nil =>
    obtain ⟨e, member, _⟩ := outside
    cases member
  | cons e rest ih =>
    rw [List.foldlM_cons, carry]
    rcases Nat.lt_or_ge (cell e.1) v.length with inside | past
    · have later : ∃ e' ∈ rest, v.length ≤ cell e'.1 := by
        obtain ⟨e', member, past⟩ := outside
        rcases List.mem_cons.mp member with rfl | there
        · omega
        · exact ⟨e', there, past⟩
      rw [addAt_of_lt inside]
      exact ih _ (by rwa [List.length_set])
    · rw [addAt_of_le past]
      rfl

theorem carry_constant {l : List (Int32 × F)} {avg c : F}
    (first : ∀ e ∈ l, average learningRate momentumBeta avg e.2 = c)
    (later : ∀ e ∈ l, average learningRate momentumBeta c e.2 = c) (v : List F) :
    l.foldlM (carry learningRate momentumBeta) (avg, v) =
      (l.foldlM (fun v e => addAt v (cell e.1) c) v).map fun v' => (if l.isEmpty then avg else c, v') := by
  induction l generalizing avg v with
  | nil => rfl
  | cons e rest ih =>
    rw [List.forall_mem_cons] at first later
    have tail := ih later.2 later.2
    rw [List.foldlM_cons, List.foldlM_cons, carry, first.1]
    cases addAt v (cell e.1) c with
    | error fault => rfl
    | ok v' =>
      refine (tail v').trans ?_
      rw [ite_self]
      rfl

/-- Some index is outside the model, there are not two entries, or every entry makes one and the same average, taken
first or after another one. -/
def OneAverage (learningRate momentumBeta avg : F) (weights : List F) (entries : List (Int32 × F)) : Prop :=
  (∃ e ∈ entries, weights.length ≤ cell e.1) ∨ entries.length ≤ 1 ∨
    ∃ c, ∀ e ∈ entries, average learningRate momentumBeta avg e.2 = c ∧ average learningRate momentumBeta c e.2 = c

theorem carry_orderFree {avg : F} {v : List F} {l l' : List (Int32 × F)} (distinct : (l.map (·.1)).Nodup)
    (one : OneAverage learningRate momentumBeta avg v l) (perm : l.Perm l') :
    l'.foldlM (carry learningRate momentumBeta) (avg, v) = l.foldlM (carry learningRate momentumBeta) (avg, v) := by
  rcases one with ⟨e, member, past⟩ | few | ⟨c, same⟩
  · rw [carry_outside avg ⟨e, member, past⟩, carry_outside avg ⟨e, perm.mem_iff.mp member, past⟩]
  · have alike : l' = l := by
      cases l with
      | nil => exact perm.nil_eq.symm
      | cons e rest =>
        obtain rfl : rest = [] := List.eq_nil_of_length_eq_zero (by rw [List.length_cons] at few; omega)
        exact List.perm_singleton.mp perm.symm
    rw [alike]
  · have same' : ∀ e ∈ l', _ := fun e member => same e (perm.mem_iff.mpr member)
    rw [carry_constant (fun e member => (same e member).1) (fun e member => (same e member).2),
      carry_constant (fun e member => (same' e member).1) (fun e member => (same' e member).2), perm.isEmpty_eq,
      foldlM_perm perm]
    intro e member e' member' v
    rcases cells_apart distinct member member' with rfl | apart
    · rfl
    · exact addAt_comm apart _ _

end Average

section Exactly
variable [Field F] [FloatOps F] {learningRate momentumBeta : F}

theorem oneAverage_of_orderFree {avg : F} {v : List F} {l : List (Int32 × F)} (distinct : (l.map (·.1)).Nodup)
    (free : ∀ l', l.Perm l' →
      l'.foldlM (carry learningRate momentumBeta) (avg, v) = l.foldlM (carry learningRate momentumBeta) (avg, v)) :
    OneAverage learningRate momentumBeta avg v l := by
  by_cases outside : ∃ e ∈ l, v.length ≤ cell e.1
  · exact .inl outside
  have inside : ∀ e ∈ l, cell e.1 < v.length := by
    intro e member
    by_contra past
    exact outside ⟨e, member, Nat.le_of_not_lt past⟩
  obtain ⟨w, ends, _, _⟩ := carry_gives learningRate momentumBeta avg inside
  have value : ∀ l₁ e r, l.Perm (l₁ ++ e :: r) →
      averageAfter learningRate momentumBeta avg (l₁ ++ e :: r) = averageAfter learningRate momentumBeta avg l ∧
      w[cell e.1]? = v[cell e.1]?.map
        (· + average learningRate momentumBeta (averageAfter learningRate momentumBeta avg l₁) e.2) := by
    intro l₁ e r perm
    obtain ⟨w', done, found⟩ := carry_value learningRate momentumBeta avg (v := v)
      (fun e' member => inside e' (perm.mem_iff.mpr member)) ((perm.map _).nodup_iff.mp distinct)
    rw [free _ perm, ends] at done
    obtain ⟨same, rfl⟩ := Prod.mk.inj (Except.ok.inj done)
    exact ⟨same.symm, found⟩
  have first : ∀ l₁ e r, l.Perm (l₁ ++ e :: r) →
      average learningRate momentumBeta (averageAfter learningRate momentumBeta avg l₁) e.2 =
        average learningRate momentumBeta avg e.2 := by
    intro l₁ e r perm
    have here := inside e (perm.mem_iff.mpr (List.mem_append_right l₁ List.mem_cons_self))
    have late := (value l₁ e r perm).2
    have early := (value [] e (l₁ ++ r) (perm.trans List.perm_middle)).2
    rw [late, List.getElem?_eq_getElem here] at early
    exact add_left_cancel (Option.some.inj early)
  have last : ∀ e ∈ l, average learningRate momentumBeta avg e.2 = averageAfter learningRate momentumBeta avg l := by
    intro e member
    obtain ⟨s, t, rfl⟩ := List.append_of_mem member
    have perm : (s ++ e :: t).Perm ((s ++ t) ++ [e]) :=
      List.perm_middle.trans (List.perm_append_singleton e (s ++ t)).symm
    rw [← (value (s ++ t) e [] perm).1, ← first (s ++ t) e [] perm]
    exact (averageAfter_concat avg (s ++ t) e).symm
  by_cases few : l.length ≤ 1
  · exact .inr (.inl few)
  refine .inr (.inr ⟨averageAfter learningRate momentumBeta avg l, fun e member => ⟨last e member, ?_⟩⟩)
  obtain ⟨s, t, rfl⟩ := List.append_of_mem member
  cases others : s ++ t with
  | nil =>
    obtain ⟨rfl, rfl⟩ := List.append_eq_nil_iff.mp others
    exact (few (Nat.le_refl 1)).elim
  | cons f u =>
    have perm : (s ++ e :: t).Perm ([f] ++ e :: u) := by
      have together : (s ++ e :: t).Perm (e :: (s ++ t)) := List.perm_middle
      rw [others] at together
      exact together.trans (List.Perm.swap f e u)
    have second := first [f] e u perm
    have one : averageAfter learningRate momentumBeta avg [f] = averageAfter learningRate momentumBeta avg (s ++ e :: t) :=
      last f (perm.mem_iff.mpr List.mem_cons_self)
    rw [one, last e member] at second
    exact second

/-- The order does not matter where what is carried from an entry to the next does not. -/
theorem carried_iff {method : OptimizationMethod F} {m : SparseLRModel F} {g : LRSparseGradient F} {avg : F}
    (distinct : (g.weights.map (·.1)).Nodup) (put : F × List F → OptimizationMethod F × SparseLRModel F)
    (injective : Function.Injective put) (loop : ∀ entries, method.sgdUpdate m { g with weights := entries } =
      (entries.foldlM (carry learningRate momentumBeta) (avg, m.weights)).map put) :
    OrderFree method m g ↔ OneAverage learningRate momentumBeta avg m.weights g.weights := by
  have whole := loop g.weights
  constructor
  · intro free
    apply oneAverage_of_orderFree distinct
    intro entries perm
    apply map_injective injective
    rw [← loop entries, free entries perm]
    exact whole
  · intro one entries perm
    rw [loop entries, carry_orderFree distinct one perm]
    exact whole.symm

def OrderFreeWhen : OptimizationMethod F → SparseLRModel F → List (Int32 × F) → Prop
  | .sgd _, _, _ | .adaGrad _ _, _, _ => True
  | .momentum learningRate momentumBeta momentumAvg, m, entries
  | .nesterov learningRate momentumBeta momentumAvg, m, entries =>
    OneAverage learningRate momentumBeta momentumAvg m.weights entries

theorem order_free_iff (method : OptimizationMethod F) (m : SparseLRModel F) (g : LRSparseGradient F)
    (distinct : (g.weights.map (·.1)).Nodup) : OrderFree method m g ↔ OrderFreeWhen method m g.weights := by
  cases method with
  | sgd learningRate => exact iff_of_true (sgd_orderFree m learningRate distinct) trivial
  | adaGrad learningRate adagradEpsilon =>
    exact iff_of_true (adaGrad_orderFree m learningRate adagradEpsilon distinct) trivial
  | momentum learningRate momentumBeta momentumAvg =>
    let put := fun s : F × List F => (OptimizationMethod.momentum learningRate momentumBeta s.1, { m with weights := s.2 })
    apply carried_iff distinct put
    · intro s t same
      simp only [put, Prod.mk.injEq, OptimizationMethod.momentum.injEq, SparseLRModel.mk.injEq] at same
      exact Prod.ext same.1.2.2 same.2.1
    · intro entries
      exact foldlM_focus put (fun s e => (carry_map put s e).symm) entries (momentumAvg, m.weights)
  | nesterov learningRate momentumBeta momentumAvg =>
    let put := fun s : F × List F => (OptimizationMethod.nesterov learningRate momentumBeta s.1, { m with weights := s.2 })
    apply carried_iff distinct put
    · intro s t same
      simp only [put, Prod.mk.injEq, OptimizationMethod.nesterov.injEq, SparseLRModel.mk.injEq] at same
      exact Prod.ext same.1.2.2 same.2.1
    · intro entries
      exact foldlM_focus put (fun s e => (carry_map put s e).symm) entries (momentumAvg, m.weights)

end Exactly

section Runs

def twoWeights : SparseLRModel ℚ where
  weights := [0, 0]
  weightsHist := [0, 0]

def twoEntries : LRSparseGradient ℚ where
  weights := [(0, 1), (1, 2)]

theorem order_free_adaGrad : OrderFree (.adaGrad 1 1) twoWeights twoEntries :=
  (order_free_iff (.adaGrad 1 1) twoWeights twoEntries (by decide)).mpr trivial

theorem momentum_order_matters : ¬ ∀ (method : OptimizationMethod ℚ) (m : SparseLRModel ℚ) (g : LRSparseGradient ℚ),
    (g.weights.map (·.1)).Nodup → OrderFree method m g := by
  intro always
  have same := always (.momentum 1 (1 / 2) 0) twoWeights twoEntries (by decide) [(1, 2), (0, 1)]
    (List.Perm.swap (1, 2) (0, 1) [])
  have weights := congrArg (fun result => result.map fun s => s.2.weights) same
  exact absurd weights (by decide +kernel)

end Runs
end EntryOrder

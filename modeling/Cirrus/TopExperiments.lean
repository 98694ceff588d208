import Mathlib

/-!
`GridSearch.get_top`. An experiment that has points is listed under the number
of such experiments before it, which is its position only if no experiment
before it is without points.
-/
namespace GridSearch
variable {T V : Type}

/-- What `get_time_loss` gives of an experiment: a time and a loss for each of its points. -/
abbrev History (T V : Type) := List (T × V)

/-- A turn of the loop over `cirrus_objs`, on `index` and `lst`. -/
def addLast (s : Nat × List (Nat × (T × V))) (loss : History T V) : Nat × List (Nat × (T × V)) :=
  match loss.getLast? with
  | none => s
  | some last => (s.1 + 1, s.2 ++ [(s.1, last)])

/-- `lst[n:]` -/
def sliceFrom {α : Type} (lst : List α) (n : Int) : List α :=
  if n < 0 then lst.drop (lst.length - n.natAbs) else lst.drop n.toNat

/-- `lst[:n]` -/
def sliceTo {α : Type} (lst : List α) (n : Int) : List α :=
  if n < 0 then lst.take (lst.length - n.natAbs) else lst.take n.toNat

section Ranking
variable [LinearOrder V]

/-- `lst.sort(key = lambda x: x[1][1])` -/
def sortByLoss (lst : List (Nat × (T × V))) : List (Nat × (T × V)) := lst.mergeSort fun x y => x.2.2 ≤ y.2.2

def getTop (objs : List (History T V)) (n : Int) : List (Nat × (T × V)) :=
  let lst := sortByLoss (objs.foldl addLast (0, [])).2
  if n < 0 then sliceFrom lst n else sliceTo lst n

def lastOf (objs : List (History T V)) (i : Nat) : Option (T × V) := objs[i]?.bind List.getLast?

def total (objs : List (History T V)) : Nat := (objs.filter fun loss => !loss.isEmpty).length

def rank (objs : List (History T V)) (i : Nat) : Nat := total (objs.take i)

/-- What the search asks for: the `n` best, the `|n|` worst, or all. -/
structure Ranks (objs : List (History T V)) (n : Int) (top : List (Nat × (T × V))) : Prop where
  positions : ∀ e ∈ top, lastOf objs e.1 = some e.2
  distinct : (top.map Prod.fst).Nodup
  sorted : top.Pairwise fun x y => x.2.2 ≤ y.2.2
  count : top.length = if n = 0 then total objs else min n.natAbs (total objs)
  chosen : ∀ i p, lastOf objs i = some p → i ∉ top.map Prod.fst →
    ∀ e ∈ top, (0 < n → e.2.2 ≤ p.2) ∧ (n < 0 → p.2 ≤ e.2.2)

def lasts (objs : List (History T V)) : List (Nat × (T × V)) :=
  objs.zipIdx.filterMap fun x => x.1.getLast?.map fun p => (x.2, p)

def wanted (objs : List (History T V)) (n : Int) : List (Nat × (T × V)) :=
  if n < 0 then sliceFrom (sortByLoss (lasts objs)) n
  else if n = 0 then sortByLoss (lasts objs)
  else sliceTo (sortByLoss (lasts objs)) n

end Ranking

section Positions

theorem mem_lasts {objs : List (History T V)} {e : Nat × (T × V)} : e ∈ lasts objs ↔ lastOf objs e.1 = some e.2 := by
  unfold lasts lastOf
  rw [List.mem_filterMap, Option.bind_eq_some_iff]
  constructor
  · rintro ⟨⟨loss, i⟩, there, last⟩
    obtain ⟨p, ends, rfl⟩ := Option.map_eq_some_iff.mp last
    exact ⟨loss, List.mem_zipIdx_iff_getElem?.mp there, ends⟩
  · rintro ⟨loss, there, ends⟩
    exact ⟨(loss, e.1), List.mem_zipIdx_iff_getElem?.mpr there, Option.map_eq_some_iff.mpr ⟨e.2, ends, rfl⟩⟩

theorem lasts_concat (objs : List (History T V)) (loss : History T V) :
    lasts (objs ++ [loss]) = lasts objs ++ (loss.getLast?.map fun p => (objs.length, p)).toList := by
  unfold lasts
  rw [List.zipIdx_append, List.filterMap_append]
  congr 1
  rw [List.zipIdx_singleton, List.filterMap_cons, List.filterMap_nil, Nat.zero_add]
  cases loss.getLast? with
  | none => rfl
  | some p => rfl

theorem lasts_bounded (objs : List (History T V)) : ∀ e ∈ lasts objs, e.1 < objs.length := by
  intro e member
  have ends := mem_lasts.mp member
  obtain ⟨loss, there, _⟩ := Option.bind_eq_some_iff.mp ends
  exact (List.getElem?_eq_some_iff.mp there).1

theorem total_concat (objs : List (History T V)) (loss : History T V) :
    total (objs ++ [loss]) = total objs + if loss.isEmpty then 0 else 1 := by
  unfold total
  cases loss with
  | nil => simp
  | cons p rest => simp

theorem rank_concat (objs : List (History T V)) (loss : History T V) {i : Nat} (inside : i ≤ objs.length) :
    rank (objs ++ [loss]) i = rank objs i := by
  unfold rank
  rw [List.take_append_of_le_length inside]

theorem foldl_addLast (objs : List (History T V)) :
    objs.foldl addLast (0, []) = (total objs, (lasts objs).map fun e => (rank objs e.1, e.2)) ∧
      (lasts objs).map (fun e => rank objs e.1) = List.range (total objs) := by
  induction objs using List.reverseRecOn with
  | nil => exact ⟨rfl, rfl⟩
  | append_singleton objs loss ih =>
    have before {γ : Type} (f : Nat → (T × V) → γ) :
        (lasts objs).map (fun e => f (rank (objs ++ [loss]) e.1) e.2) = (lasts objs).map fun e => f (rank objs e.1) e.2 :=
      List.map_congr_left fun e member => by rw [rank_concat objs loss (Nat.le_of_lt (lasts_bounded objs e member))]
    have here : rank (objs ++ [loss]) objs.length = total objs := by
      rw [rank_concat objs loss (Nat.le_refl _), rank, List.take_length]
    rw [List.foldl_append, ih.1, lasts_concat, total_concat]
    cases loss with
    | nil =>
      simp only [List.getLast?_nil, Option.map_none, Option.toList_none, List.append_nil]
      exact ⟨by rw [before fun i p => (i, p)]; rfl, by rw [before fun i _ => i, ih.2]; rfl⟩
    | cons p rest =>
      have last : (p :: rest).getLast? = some _ := List.getLast?_eq_some_getLast (List.cons_ne_nil p rest)
      rw [last, Option.map_some, Option.toList_some, List.map_append, List.map_append, before fun i p => (i, p),
        before fun i _ => i, ih.2, List.map_singleton, List.map_singleton, here]
      constructor
      · rw [List.foldl_cons, addLast, last]
        rfl
      · exact List.range_succ.symm

theorem lasts_nodup (objs : List (History T V)) : ((lasts objs).map Prod.fst).Nodup := by
  apply List.Nodup.of_map (rank objs)
  rw [List.map_map]
  exact (foldl_addLast objs).2 ▸ List.nodup_range

theorem total_eq_zero {objs : List (History T V)} : total objs = 0 ↔ ∀ loss ∈ objs, loss = [] := by
  unfold total
  rw [List.length_eq_zero_iff, List.filter_eq_nil_iff]
  simp

theorem lasts_length (objs : List (History T V)) : (lasts objs).length = total objs := by
  have lengths := congrArg List.length (foldl_addLast objs).2
  rwa [List.length_map, List.length_range] at lengths

end Positions

section Selection
variable [LinearOrder V]

theorem sortByLoss_sorted (lst : List (Nat × (T × V))) : (sortByLoss lst).Pairwise fun x y => x.2.2 ≤ y.2.2 := by
  have sorted := @List.pairwise_mergeSort (Nat × (T × V)) (fun x y => decide (x.2.2 ≤ y.2.2))
    (fun a b c first second => decide_eq_true (le_trans (of_decide_eq_true first) (of_decide_eq_true second)))
    (fun a b => by simpa using le_total a.2.2 b.2.2) lst
  exact sorted.imp of_decide_eq_true

theorem sortByLoss_perm (lst : List (Nat × (T × V))) : (sortByLoss lst).Perm lst := List.mergeSort_perm lst _

theorem sortByLoss_map (number : Nat → Nat) (lst : List (Nat × (T × V))) :
    sortByLoss (lst.map fun e => (number e.1, e.2)) = (sortByLoss lst).map fun e => (number e.1, e.2) := by
  unfold sortByLoss
  symm
  apply List.map_mergeSort
  intros
  rfl

theorem sliceFrom_map {α β : Type} (f : α → β) (lst : List α) (n : Int) :
    sliceFrom (lst.map f) n = (sliceFrom lst n).map f := by
  unfold sliceFrom
  rw [List.length_map, ← List.map_drop, ← List.map_drop]
  split <;> rfl

theorem sliceTo_map {α β : Type} (f : α → β) (lst : List α) (n : Int) : sliceTo (lst.map f) n = (sliceTo lst n).map f := by
  unfold sliceTo
  rw [List.length_map, ← List.map_take, ← List.map_take]
  split <;> rfl

theorem getTop_eq (objs : List (History T V)) {n : Int} (some_asked : n ≠ 0) :
    getTop objs n = (wanted objs n).map fun e => (rank objs e.1, e.2) := by
  unfold getTop wanted
  rw [(foldl_addLast objs).1, sortByLoss_map, if_neg some_asked]
  dsimp only
  rw [sliceFrom_map, sliceTo_map]
  split <;> rfl

theorem getTop_zero (objs : List (History T V)) : getTop objs 0 = [] := rfl

theorem wanted_split (objs : List (History T V)) (n : Int) : ∃ others : List (Nat × (T × V)),
    (lasts objs).Perm (wanted objs n ++ others) ∧ (wanted objs n).Pairwise (fun x y => x.2.2 ≤ y.2.2) ∧
      (wanted objs n).length = (if n = 0 then total objs else min n.natAbs (total objs)) ∧
      ∀ e ∈ wanted objs n, ∀ o ∈ others, (0 < n → e.2.2 ≤ o.2.2) ∧ (n < 0 → o.2.2 ≤ e.2.2) := by
  have sorted := sortByLoss_sorted (lasts objs)
  have perm := sortByLoss_perm (lasts objs)
  have length := perm.length_eq
  rw [lasts_length] at length
  unfold wanted
  generalize sortByLoss (lasts objs) = all at *
  split
  next negative =>
    rw [sliceFrom, if_pos negative, if_neg (by omega)]
    have whole := List.take_append_drop (all.length - n.natAbs) all
    rw [← whole, List.pairwise_append] at sorted
    refine ⟨all.take (all.length - n.natAbs), ?_, sorted.2.1, ?_, ?_⟩
    · exact perm.symm.trans ((List.Perm.of_eq whole.symm).trans List.perm_append_comm)
    · rw [List.length_drop]
      omega
    · exact fun e wanted o other => ⟨fun positive => by omega, fun _ => sorted.2.2 o other e wanted⟩
  next =>
    split
    next zero =>
      exact ⟨[], by rw [List.append_nil]; exact perm.symm, sorted, length, nofun⟩
    next nonzero =>
      rw [sliceTo, if_neg (by omega)]
      have whole := List.take_append_drop n.toNat all
      rw [← whole, List.pairwise_append] at sorted
      refine ⟨all.drop n.toNat, ?_, sorted.1, ?_, ?_⟩
      · exact perm.symm.trans (List.Perm.of_eq whole.symm)
      · rw [List.length_take]
        omega
      · exact fun e wanted o other => ⟨fun _ => sorted.2.2 e wanted o other, fun negative => by omega⟩

theorem ranks_renumbered {objs : List (History T V)} {n : Int} {number : Nat → Nat}
    (distinct : ((wanted objs n).map fun e => number e.1).Nodup)
    (ends : ∀ e ∈ wanted objs n, lastOf objs (number e.1) = some e.2) :
    Ranks objs n ((wanted objs n).map fun e => (number e.1, e.2)) := by
  obtain ⟨others, perm, sorted, count, apart⟩ := wanted_split objs n
  have firsts : (((wanted objs n).map fun e => (number e.1, e.2)).map Prod.fst).Nodup := by
    rw [List.map_map]
    exact distinct
  refine ⟨?_, firsts, ?_, ?_, ?_⟩
  · exact List.forall_mem_map.mpr ends
  · exact List.pairwise_map.mpr sorted
  · rw [List.length_map, count]
  · intro i p last absent e returned
    obtain ⟨e, member, rfl⟩ := List.mem_map.mp returned
    have inside : (wanted objs n).map (fun e => (number e.1, e.2)) ⊆ lasts objs := by
      intro e there
      obtain ⟨e, member, rfl⟩ := List.mem_map.mp there
      exact mem_lasts.mpr (ends e member)
    obtain ⟨same, permuted, part⟩ := (List.Nodup.of_map Prod.fst firsts).subperm inside
    obtain ⟨left, whole⟩ := part.exists_perm_append
    have all : (lasts objs).Perm ((wanted objs n).map (fun e => (number e.1, e.2)) ++ left) :=
      whole.trans (permuted.append_right left)
    have losses := ((perm.symm.trans all).map fun e => e.2.2)
    rw [List.map_append, List.map_append, List.map_map] at losses
    have others_left : (others.map fun e => e.2.2).Perm (left.map fun e => e.2.2) :=
      (List.perm_append_left_iff _).mp losses
    have stays : (i, p) ∈ left := by
      rcases List.mem_append.mp (all.subset ((mem_lasts (e := (i, p))).mpr last)) with there | there
      · exact absurd (List.mem_map.mpr ⟨_, there, rfl⟩) absent
      · exact there
    obtain ⟨o, other, loss⟩ := List.mem_map.mp (others_left.symm.subset (List.mem_map.mpr ⟨_, stays, rfl⟩))
    have compared := apart e member o other
    rw [loss] at compared
    exact compared

theorem wanted_ranks (objs : List (History T V)) (n : Int) : Ranks objs n (wanted objs n) := by
  obtain ⟨others, perm, _⟩ := wanted_split objs n
  have distinct := (perm.map Prod.fst).nodup_iff.mp (lasts_nodup objs)
  rw [List.map_append] at distinct
  have ranks := @ranks_renumbered T V _ objs n (fun i => i) distinct.of_append_left fun e member =>
    mem_lasts.mp (perm.symm.subset (List.mem_append_left _ member))
  rwa [List.map_id'] at ranks

/-- The answer of `get_top` is right exactly if each experiment that is wanted ends as the one at its rank does, which
is itself where none without points comes before it, and if nothing is wanted where all are. -/
theorem getTop_iff (objs : List (History T V)) (n : Int) :
    Ranks objs n (getTop objs n) ↔ if n = 0 then ∀ loss ∈ objs, loss = []
      else ∀ e ∈ wanted objs n, lastOf objs (rank objs e.1) = some e.2 := by
  split
  next zero =>
    subst zero
    rw [getTop_zero, ← total_eq_zero]
    constructor
    · intro ranks
      have count := ranks.count
      rw [if_pos rfl] at count
      exact count.symm
    · intro none_there
      exact ⟨nofun, List.nodup_nil, .nil, by rw [if_pos rfl, none_there, List.length_nil], fun _ _ _ _ => nofun⟩
  next nonzero =>
    rw [getTop_eq objs nonzero]
    constructor
    · intro ranks e member
      exact ranks.positions _ (List.mem_map.mpr ⟨e, member, rfl⟩)
    · intro ends
      obtain ⟨others, perm, _⟩ := wanted_split objs n
      have distinct := (perm.map fun e => rank objs e.1).nodup_iff.mp ((foldl_addLast objs).2 ▸ List.nodup_range)
      rw [List.map_append] at distinct
      exact ranks_renumbered distinct.of_append_left ends

/-- The first experiment has no points, and is returned for the second. -/
theorem first_without_points : ¬ Ranks ([[], [(1, 5)]] : List (History Nat Nat)) 1 (getTop [[], [(1, 5)]] 1) := by
  have top : getTop ([[], [(1, 5)]] : List (History Nat Nat)) 1 = [(0, (1, 5))] := by
    simp [getTop, addLast, sortByLoss, sliceTo]
  rw [top]
  intro ranks
  have position := ranks.positions (0, (1, 5)) (List.mem_singleton.mpr rfl)
  cases position

theorem getTop_all_run {objs : List (History T V)} (run : ∀ loss ∈ objs, loss ≠ []) {n : Int} (some_asked : n ≠ 0) :
    getTop objs n = wanted objs n := by
  have rank_self : ∀ i ≤ objs.length, rank objs i = i := by
    intro i inside
    have kept : ((objs.take i).filter fun loss => !loss.isEmpty) = objs.take i :=
      List.filter_eq_self.mpr fun loss member => by simpa using run loss (List.mem_of_mem_take member)
    rw [rank, total, kept, List.length_take_of_le inside]
  obtain ⟨others, perm, _⟩ := wanted_split objs n
  have same : (wanted objs n).map (fun e => (rank objs e.1, e.2)) = (wanted objs n).map id := by
    apply List.map_congr_left
    intro e member
    have inside := lasts_bounded objs e (perm.symm.subset (List.mem_append_left _ member))
    rw [rank_self e.1 (Nat.le_of_lt inside), id]
  rw [getTop_eq objs some_asked, same, List.map_id]

end Selection
end GridSearch

import Cirrus.Lib.Transition

/- Actors that read a shared model, make an update of what they have read, and send it to the model.
   The model takes the updates of each actor in the order in which they were sent, and no actor waits
   for that. Nothing here mentions a particular model. -/
namespace Asynchronous
open Transition
variable {I M V U : Type}

/-- What an actor reads of the model, and what it makes of that in each of its rounds, if anything. -/
structure Scheme (I M V U : Type) where
  read : M → V
  update : I → Nat → V → Option U
  apply : M → U → M

/-- An update with its round, and with how many updates the model had taken when it was read. -/
structure Sent (U : Type) where
  update : U
  round : Nat
  readAt : Nat

/-- `sent` and `applied` are histories, which no step reads. -/
structure State (I M V U : Type) where
  model : M
  rounds : I → Nat := fun _ => 0
  /-- What an actor has read, and how many updates there were then. -/
  view : I → Option (V × Nat) := fun _ => none
  queue : I → List U := fun _ => []
  sent : I → List (Sent U) := fun _ => []
  applied : List (I × U) := []

inductive Label (I : Type)
  | read (i : I)
  | send (i : I)
  | apply (i : I)

namespace Scheme
variable [DecidableEq I]

def step (r : Scheme I M V U) (s : State I M V U) : Label I → Option (State I M V U)
  | .read i =>
    match s.view i with
    | some _ => none
    | none => some { s with view := Function.update s.view i (some (r.read s.model, s.applied.length)) }
  | .send i => (s.view i).map fun view =>
    let made := (r.update i (s.rounds i) view.1).toList
    { s with
      rounds := Function.update s.rounds i (s.rounds i + 1)
      view := Function.update s.view i none
      queue := Function.update s.queue i (s.queue i ++ made)
      sent := Function.update s.sent i (s.sent i ++ made.map fun u => ⟨u, s.rounds i, view.2⟩) }
  | .apply i =>
    match s.queue i with
    | [] => none
    | u :: rest => some { s with
        model := r.apply s.model u
        queue := Function.update s.queue i rest
        applied := s.applied ++ [(i, u)] }

omit [DecidableEq I] in
def after (r : Scheme I M V U) (m : M) (applied : List (I × U)) : M := applied.foldl (fun m e => r.apply m e.2) m

omit [DecidableEq I] in
@[simp] theorem after_concat (r : Scheme I M V U) (m : M) (applied : List (I × U)) (e : I × U) :
    r.after m (applied ++ [e]) = r.apply (r.after m applied) e.2 := by
  rw [after, List.foldl_append]
  rfl

end Scheme

def ofActor [DecidableEq I] (i : I) (applied : List (I × U)) : List U := (applied.filter fun e => e.1 = i).map Prod.snd

section Actors
variable [DecidableEq I]

theorem ofActor_append (i : I) (first rest : List (I × U)) :
    ofActor i (first ++ rest) = ofActor i first ++ ofActor i rest := by
  rw [ofActor, List.filter_append, List.map_append]
  rfl

theorem ofActor_self (i : I) (u : U) : ofActor i [(i, u)] = [u] := by
  simp [ofActor]

theorem ofActor_other {i j : I} (apart : j ≠ i) (u : U) : ofActor j [(i, u)] = [] := by
  simp [ofActor, apart.symm]

def Scheme.seen (r : Scheme I M V U) (start : M) (applied : List (I × U)) (n : Nat) : V :=
  r.read (r.after start (applied.take n))

omit [DecidableEq I] in
theorem Scheme.seen_concat (r : Scheme I M V U) (start : M) {applied : List (I × U)} {n : Nat}
    (known : n ≤ applied.length) (e : I × U) : r.seen start (applied ++ [e]) n = r.seen start applied n := by
  rw [seen, seen, List.take_append_of_le_length known]

/-- Every update is made of the model as it was after some of the updates that are in it, is taken
after these, once and in its turn, and the model is nothing but the initial one with these updates. -/
structure Consistent (r : Scheme I M V U) (start : M) (s : State I M V U) : Prop where
  model : s.model = r.after start s.applied
  inOrder : ∀ i, ofActor i s.applied ++ s.queue i = (s.sent i).map Sent.update
  viewed : ∀ i v n, s.view i = some (v, n) → n ≤ s.applied.length ∧ v = r.seen start s.applied n
  made : ∀ i, ∀ e ∈ s.sent i, e.readAt ≤ s.applied.length ∧
    r.update i e.round (r.seen start s.applied e.readAt) = some e.update
  ordered : ∀ i, (s.sent i).Pairwise fun e e' => e.round < e'.round ∧ e.readAt ≤ e'.readAt
  latest : ∀ i, ∀ e ∈ s.sent i, e.round < s.rounds i ∧ ∀ v n, s.view i = some (v, n) → e.readAt ≤ n
  readFirst : ∀ i k e n, (s.sent i)[k]? = some e → k < (ofActor i (s.applied.take n)).length → e.readAt < n

theorem consistent_start (r : Scheme I M V U) (start : M) : Consistent r start { model := start } where
  model := rfl
  inOrder _ := rfl
  viewed := nofun
  made := nofun
  ordered _ := .nil
  latest := nofun
  readFirst := nofun

theorem consistent_read {r : Scheme I M V U} {start : M} {s : State I M V U} {i : I} (inv : Consistent r start s)
    (free : s.view i = none) : Consistent r start
      { s with view := Function.update s.view i (some (r.read s.model, s.applied.length)) } := by
  have now : r.read s.model = r.seen start s.applied s.applied.length := by
    rw [Scheme.seen, List.take_length, inv.model]
  refine { inv with viewed := ?_, latest := ?_ }
  · intro j v n here
    dsimp only at here ⊢
    by_cases same : j = i
    · subst same
      rw [Function.update_self] at here
      cases here
      exact ⟨Nat.le_refl _, now⟩
    · rw [Function.update_of_ne same] at here
      exact inv.viewed j v n here
  · intro j e member
    refine ⟨(inv.latest j e member).1, ?_⟩
    intro v n here
    dsimp only at here
    by_cases same : j = i
    · subst same
      rw [Function.update_self] at here
      cases here
      exact (inv.made j e member).1
    · rw [Function.update_of_ne same] at here
      exact (inv.latest j e member).2 v n here

theorem taken_le_sent {r : Scheme I M V U} {start : M} {s : State I M V U} (inv : Consistent r start s) (i : I) (n : Nat) :
    (ofActor i (s.applied.take n)).length ≤ (s.sent i).length := by
  have lengths := congrArg List.length (inv.inOrder i)
  have split := congrArg (fun l => (ofActor i l).length) (List.take_append_drop n s.applied)
  rw [ofActor_append, List.length_append] at split
  rw [List.length_append, List.length_map] at lengths
  omega

theorem consistent_send {r : Scheme I M V U} {start : M} {s : State I M V U} {i : I} {v : V} {n : Nat}
    (inv : Consistent r start s) (here : s.view i = some (v, n)) : Consistent r start
      { s with
        rounds := Function.update s.rounds i (s.rounds i + 1)
        view := Function.update s.view i none
        queue := Function.update s.queue i (s.queue i ++ (r.update i (s.rounds i) v).toList)
        sent := Function.update s.sent i
          (s.sent i ++ (r.update i (s.rounds i) v).toList.map fun u => ⟨u, s.rounds i, n⟩) } := by
  obtain ⟨known, seen⟩ := inv.viewed i v n here
  have news : ∀ e ∈ (r.update i (s.rounds i) v).toList.map fun u => (⟨u, s.rounds i, n⟩ : Sent U),
      e.round = s.rounds i ∧ e.readAt = n ∧ r.update i (s.rounds i) v = some e.update := by
    intro e member
    obtain ⟨u, made, rfl⟩ := List.mem_map.mp member
    exact ⟨rfl, rfl, Option.mem_toList.mp made⟩
  constructor
  · exact inv.model
  · intro j
    by_cases same : j = i
    · subst same
      simp only [Function.update_self]
      rw [← List.append_assoc, inv.inOrder j, List.map_append, List.map_map]
      congr 1
      exact (List.map_id _).symm
    · simp only [Function.update_of_ne same]
      exact inv.inOrder j
  · intro j v' n' viewed
    dsimp only at viewed
    by_cases same : j = i
    · subst same
      rw [Function.update_self] at viewed
      cases viewed
    · rw [Function.update_of_ne same] at viewed
      exact inv.viewed j v' n' viewed
  · intro j e member
    dsimp only at member ⊢
    by_cases same : j = i
    · subst same
      rw [Function.update_self, List.mem_append] at member
      rcases member with before | new
      · exact inv.made j e before
      · obtain ⟨round, readAt, made⟩ := news e new
        rw [round, readAt, ← seen]
        exact ⟨known, made⟩
    · rw [Function.update_of_ne same] at member
      exact inv.made j e member
  · intro j
    dsimp only
    by_cases same : j = i
    · subst same
      rw [Function.update_self, List.pairwise_append]
      refine ⟨inv.ordered j, ?_, ?_⟩
      · cases r.update j (s.rounds j) v with
        | none => exact .nil
        | some u => exact List.pairwise_singleton _ _
      · intro e before e' new
        obtain ⟨round, readAt, _⟩ := news e' new
        obtain ⟨earlier, last⟩ := inv.latest j e before
        rw [round, readAt]
        exact ⟨earlier, last v n here⟩
    · rw [Function.update_of_ne same]
      exact inv.ordered j
  · intro j e member
    dsimp only at member ⊢
    by_cases same : j = i
    · subst same
      rw [Function.update_self, List.mem_append] at member
      rw [Function.update_self, Function.update_self]
      refine ⟨?_, nofun⟩
      rcases member with before | new
      · exact Nat.lt_succ_of_lt (inv.latest j e before).1
      · exact (news e new).1 ▸ Nat.lt_succ_self _
    · rw [Function.update_of_ne same] at member
      rw [Function.update_of_ne same, Function.update_of_ne same]
      exact inv.latest j e member
  · intro j k e m there taken
    dsimp only at there taken
    by_cases same : j = i
    · subst same
      -- the update that is sent now has not been taken yet
      rw [Function.update_self, List.getElem?_append_left (Nat.lt_of_lt_of_le taken (taken_le_sent inv j m))] at there
      exact inv.readFirst j k e m there taken
    · rw [Function.update_of_ne same] at there
      exact inv.readFirst j k e m there taken

theorem consistent_apply {r : Scheme I M V U} {start : M} {s : State I M V U} {i : I} {u : U} {rest : List U}
    (inv : Consistent r start s) (first : s.queue i = u :: rest) : Consistent r start
      { s with
        model := r.apply s.model u
        queue := Function.update s.queue i rest
        applied := s.applied ++ [(i, u)] } := by
  have longer : s.applied.length ≤ (s.applied ++ [(i, u)]).length := by
    rw [List.length_append]
    exact Nat.le_add_right _ _
  constructor
  · dsimp only
    rw [inv.model, Scheme.after_concat]
  · intro j
    dsimp only
    rw [ofActor_append]
    by_cases same : j = i
    · subst same
      rw [Function.update_self, ofActor_self, List.append_assoc, List.singleton_append, ← first]
      exact inv.inOrder j
    · rw [Function.update_of_ne same, ofActor_other same, List.append_nil]
      exact inv.inOrder j
  · intro j v n here
    obtain ⟨known, seen⟩ := inv.viewed j v n here
    exact ⟨Nat.le_trans known longer, seen.trans (r.seen_concat start known _).symm⟩
  · intro j e member
    obtain ⟨known, made⟩ := inv.made j e member
    dsimp only
    rw [r.seen_concat start known]
    exact ⟨Nat.le_trans known longer, made⟩
  · exact inv.ordered
  · exact inv.latest
  · intro j k e n there taken
    rcases Nat.lt_or_ge s.applied.length n with all | some
    · exact Nat.lt_of_le_of_lt (inv.made j e (List.mem_of_getElem? there)).1 all
    · dsimp only at taken
      rw [List.take_append_of_le_length some] at taken
      exact inv.readFirst j k e n there taken

theorem consistent_step {r : Scheme I M V U} {start : M} {s t : State I M V U} {l : Label I}
    (inv : Consistent r start s) (taken : r.step s l = some t) : Consistent r start t := by
  cases l with
  | read i =>
    unfold Scheme.step at taken
    dsimp only at taken
    split at taken
    next => cases taken
    next free =>
      obtain rfl := Option.some.inj taken
      exact consistent_read inv free
  | send i =>
    obtain ⟨⟨v, n⟩, here, rfl⟩ := Option.map_eq_some_iff.mp taken
    exact consistent_send inv here
  | apply i =>
    unfold Scheme.step at taken
    dsimp only at taken
    split at taken
    next => cases taken
    next u rest first =>
      obtain rfl := Option.some.inj taken
      exact consistent_apply inv first

theorem consistent_follow {r : Scheme I M V U} {start : M} {s t : State I M V U} {labels : List (Label I)}
    (inv : Consistent r start s) (taken : follow r.step s labels = some t) : Consistent r start t := by
  induction labels generalizing s with
  | nil =>
    cases taken
    exact inv
  | cons l rest ih =>
    obtain ⟨u, first, later⟩ := Option.bind_eq_some_iff.mp taken
    exact ih (consistent_step inv first) later

/-- An update that the model has taken was made of the model as it was before, and the ones of an actor
are taken in the order of its rounds. -/
theorem Consistent.taken {r : Scheme I M V U} {start : M} {s : State I M V U} (inv : Consistent r start s) {t : Nat}
    {i : I} {u : U} (taken : s.applied[t]? = some (i, u)) :
    ∃ e, (s.sent i)[(ofActor i (s.applied.take t)).length]? = some e ∧ e.update = u ∧ e.readAt ≤ t ∧
      r.update i e.round (r.seen start s.applied e.readAt) = some u := by
  obtain ⟨known, here⟩ := List.getElem?_eq_some_iff.mp taken
  have next : ofActor i (s.applied.take (t + 1)) = ofActor i (s.applied.take t) ++ [u] := by
    rw [List.take_succ_eq_append_getElem known, ofActor_append, here, ofActor_self]
  have listed := inv.inOrder i
  rw [← List.take_append_drop (t + 1) s.applied, ofActor_append, next, List.append_assoc, List.append_assoc] at listed
  have place := congrArg (fun l => l[(ofActor i (s.applied.take t)).length]?) listed
  rw [List.getElem?_append_right (Nat.le_refl _), Nat.sub_self, List.singleton_append, List.getElem?_cons_zero,
    List.getElem?_map] at place
  obtain ⟨e, found, rfl⟩ := Option.map_eq_some_iff.mp place.symm
  have early := inv.readFirst i _ e (t + 1) found (by rw [next, List.length_append]; exact Nat.lt_succ_self _)
  exact ⟨e, found, rfl, Nat.le_of_lt_succ early, (inv.made i e (List.mem_of_getElem? found)).2⟩

theorem ofActor_grows {i : I} {applied : List (I × U)} {t t' : Nat} {u : U} (taken : applied[t]? = some (i, u))
    (later : t < t') : (ofActor i (applied.take t)).length < (ofActor i (applied.take t')).length := by
  obtain ⟨known, here⟩ := List.getElem?_eq_some_iff.mp taken
  have split : applied.take t' = applied.take (t + 1) ++ (applied.take t').drop (t + 1) := by
    conv_lhs => rw [← List.take_append_drop (t + 1) (applied.take t')]
    rw [List.take_take, Nat.min_eq_left later]
  rw [split, ofActor_append, List.take_succ_eq_append_getElem known, ofActor_append, here, ofActor_self,
    List.length_append, List.length_append]
  exact Nat.lt_of_lt_of_le (Nat.lt_succ_self _) (Nat.le_add_right _ _)

end Actors

section Simulation
variable {S T L K : Type} {step : S → L → Option S} {step' : T → K → Option T}

/-- A machine whose steps are those of another, and perhaps some that the other does not see. -/
theorem follow_simulated {R : S → T → Prop} (seen : L → Option K)
    (moves : ∀ s t l s', R s t → step s l = some s' → ∃ t', follow step' t (seen l).toList = some t' ∧ R s' t')
    {labels : List L} {s s' : S} {t : T} (related : R s t) (taken : follow step s labels = some s') :
    ∃ t', follow step' t (labels.filterMap seen) = some t' ∧ R s' t' := by
  induction labels generalizing s t with
  | nil =>
    cases taken
    exact ⟨t, rfl, related⟩
  | cons l rest ih =>
    obtain ⟨u, first, later⟩ := Option.bind_eq_some_iff.mp taken
    obtain ⟨t', matched, related'⟩ := moves s t l u related first
    obtain ⟨t'', matched', related''⟩ := ih related' later
    refine ⟨t'', ?_, related''⟩
    have split : (l :: rest).filterMap seen = (seen l).toList ++ rest.filterMap seen := by
      rw [List.filterMap_cons]
      cases seen l with
      | none => rfl
      | some k => rfl
    rw [split, follow_append, matched, Option.bind_some, matched']

end Simulation
end Asynchronous

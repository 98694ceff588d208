import Cirrus.Exact
import Cirrus.MFGradient
import Mathlib.Algebra.Field.Rat
import Mathlib.Algebra.Ring.Basic

/-!
A worker's step of matrix factorization. Its part of the model follows the
abstract descent; the gradient is the difference that the descent makes; and
the server adds this difference to the same parameters.
-/
namespace MF
open Gradients SparseLR Factorization Loops
variable {F : Type}

section Cells
variable {n k : Nat} {f : Nat → F}

theorem at'_vec (bound : k < n) : at' (vec n f) k = .ok (f k) := at'_ok.mpr (vec_getElem? bound)

theorem addAt_vec [Add F] (bound : k < n) (x : F) :
    addAt (vec n f) k x = .ok (vec n (Function.update f k (f k + x))) := by
  rw [addAt_ok]
  exact ⟨f k, vec_getElem? bound, (vec_set k _).symm⟩

end Cells

section Factors
variable [Add F] [Sub F] [Mul F] {n : Nat} {rate error reg : F} {own other grad : Nat → F}

theorem moveUser_vec :
    SparseMFModel.moveUser n rate error reg (vec n other) (vec n grad, vec n own) = .ok
      (vec n fun k => grad k + factorDelta rate error reg (other k) (own k),
        vec n fun k => own k + factorDelta rate error reg (other k) (own k)) := by
  let d := fun k => factorDelta rate error reg (other k) (own k)
  obtain ⟨s, done, rfl⟩ := foldlM_gives (l := List.range n) (s := (vec n grad, vec n own))
    (f := fun s k => do
      let deltaUserW := factorDelta rate error reg (← at' (vec n other) k) (← at' s.2 k)
      pure (← addAt s.1 k deltaUserW, ← addAt s.2 k deltaUserW))
    (P := fun seen s => s = (vec n (partway seen.length grad d), vec n (partway seen.length own d))) (by
      intro seen k here s state
      subst state
      obtain ⟨rfl, bound⟩ := eq_length_of_prefix_range here
      refine ⟨_, ?_, rfl⟩
      simp only [at'_vec bound, addAt_vec bound, partway_here, bind, Except.bind, pure, Except.pure]
      rw [List.length_append, List.length_singleton, ← partway_succ, ← partway_succ])
    (by rw [List.length_nil, partway_zero, partway_zero])
  rw [List.length_range, vec_partway, vec_partway] at done
  exact done

def gathered (listed : Prop) [Decidable listed] (n : Nat) (grad : Nat → F) : List F :=
  if listed then vec n grad else []

theorem moveItem_vec [Zero F] {slot : Fin itemSlots} {lst : List (Fin itemSlots)} {listed : Prop}
    [Decidable listed] (fresh : ¬listed → ∀ k, grad k = 0) :
    SparseMFModel.moveItem numFactors rate error reg (vec numFactors other) slot
        { grad := gathered listed numFactors grad, listed := lst, weights := vec numFactors own } = .ok
      { grad := vec numFactors fun k => grad k + factorDelta rate error reg (other k) (own k)
        listed := if listed then lst else lst ++ [slot]
        weights := vec numFactors fun k => own k + factorDelta rate error reg (other k) (own k) } := by
  let d := fun k => factorDelta rate error reg (other k) (own k)
  let lst' := if listed then lst else lst ++ [slot]
  -- the first turn makes the vector, so that it is there in every later one
  let P : List Nat → SparseMFModel.ItemMove F → Prop := fun seen s =>
    s.weights = vec numFactors (partway seen.length own d) ∧
      (if s.grad.isEmpty then (List.replicate numFactors 0, s.listed ++ [slot]) else (s.grad, s.listed)) =
        (vec numFactors (partway seen.length grad d), lst') ∧ (seen ≠ [] → s.grad.isEmpty = false)
  obtain ⟨s, done, weights, started, some_cell⟩ : ∃ s, SparseMFModel.moveItem numFactors rate error reg
      (vec numFactors other) slot { grad := gathered listed numFactors grad, listed := lst, weights := vec numFactors own } =
        .ok s ∧ P (List.range numFactors) s := by
    refine foldlM_gives (P := P) ?_ ?_
    · rintro seen k here s ⟨weights, started, _⟩
      obtain ⟨rfl, bound⟩ := eq_length_of_prefix_range here
      have some_cell : ∀ f : Nat → F, (vec numFactors f).isEmpty = false := fun f => rfl
      let next : SparseMFModel.ItemMove F :=
        { grad := vec numFactors (partway (seen.length + 1) grad d)
          listed := lst'
          weights := vec numFactors (partway (seen.length + 1) own d) }
      refine ⟨next, ?_, ?_, ?_, fun _ => some_cell _⟩
      · simp only [weights, started, at'_vec bound, addAt_vec bound, partway_here, bind, Except.bind,
          pure, Except.pure, next]
        rw [← partway_succ, ← partway_succ]
      · rw [List.length_append, List.length_singleton]
      · rw [some_cell, List.length_append, List.length_singleton]
        rfl
    · refine ⟨by rw [List.length_nil, partway_zero], ?_, fun some_seen => (some_seen rfl).elim⟩
      rw [List.length_nil, partway_zero]
      by_cases there : listed
      · simp only [gathered, lst', if_pos there]
        rfl
      · have zeros : List.replicate numFactors 0 = vec numFactors grad :=
          eq_vec List.length_replicate fun k bound => by
            rw [List.getElem?_replicate, if_pos bound, fresh there]
        simp only [gathered, lst', if_neg there]
        rw [← zeros]
        rfl
  rw [some_cell (by decide), List.length_range, vec_partway] at started
  rw [List.length_range, vec_partway] at weights
  obtain ⟨grads, lists⟩ := Prod.mk.inj started
  obtain ⟨grad', listed', weights'⟩ := s
  dsimp only at grads lists weights
  subst grads lists weights
  exact done

/-- The part of a model that a worker has: its users, in order from `base`, and the items it knows. -/
structure Part (d : Descent F) (base m : Nat) (known : Nat → Prop) (p : Params Nat Nat F)
    (L : SparseMFModel F) : Prop where
  users : ∀ j < m, ∃ id, L.userModels[j]? =
    some (id, p.userBias (base + j), vec numFactors (p.userFactors (base + j)))
  count : L.userModels.length = m
  items : ∀ slot : Fin itemSlots, known slot →
    L.itemModels slot = (p.itemBias slot, vec numFactors (p.itemFactors slot))
  nfactors : L.nfactors.toNat = numFactors
  factors : d.factors = numFactors
  globalBias : L.globalBias = d.globalBias
  reg : L.reg = d.reg

end Factors

theorem itemSlot_wide {id : Int32} (inside : cell id < itemSlots) :
    itemSlot (wide id) = .ok ⟨cell id, inside⟩ := dif_pos inside

theorem itemSlot_narrow {id : Int32} (inside : cell id < itemSlots) :
    itemSlot (wide id).toUInt32.toUInt64 = .ok ⟨cell id, inside⟩ := by
  have same : (wide id).toUInt32.toUInt64.toNat = cell id := by
    rw [UInt32.toNat_toUInt64, UInt64.toNat_toUInt32]
    exact Nat.mod_eq_of_lt (Nat.lt_trans inside (by decide))
  have inside' : (wide id).toUInt32.toUInt64.toNat < itemSlots := by rwa [same]
  rw [itemSlot, dif_pos inside']
  simp only [same]

section Prediction
variable {d : Descent F} {base m : Nat} {known : Nat → Prop} {p : Params Nat Nat F} {L : SparseMFModel F}

theorem userModel_part (part : Part d base m known p L) {j : Nat} (bound : j < m) :
    ∃ id, L.userModel j = .ok (id, p.userBias (base + j), vec numFactors (p.userFactors (base + j))) := by
  obtain ⟨id, found⟩ := part.users j bound
  refine ⟨id, ?_⟩
  rw [SparseMFModel.userModel, found]

theorem predict_part [Add F] [Mul F] (part : Part d base m known p L) {j : Nat} (bound : j < m)
    (small : j < 2 ^ 32) {id : Int32} (inside : cell id < itemSlots) (there : known (cell id)) :
    L.predict (UInt32.ofNat j) (wide id).toUInt32 =
      .ok (Factorization.predict d.factors d.globalBias p (base + j) (cell id)) := by
  obtain ⟨userId, user⟩ := userModel_part part bound
  have index : (UInt32.ofNat j).toNat = j :=
    UInt32.toNat_ofNat_of_lt' small
  have item := part.items ⟨cell id, inside⟩ there
  rw [SparseMFModel.predict, index, bind_of_ok user]
  simp only [bind_of_ok (itemSlot_narrow inside), item]
  rw [part.nfactors, part.globalBias]
  obtain ⟨res, done, value⟩ := foldlM_gives (l := List.range numFactors)
    (s := d.globalBias + p.userBias (base + j) + p.itemBias (cell id))
    (f := fun res i => do
      pure (res + (← at' (vec numFactors (p.userFactors (base + j))) i) *
        (← at' (vec numFactors (p.itemFactors (cell id))) i)))
    (P := fun seen res => res = seen.foldl
      (fun res k => res + p.userFactors (base + j) k * p.itemFactors (cell id) k)
      (d.globalBias + p.userBias (base + j) + p.itemBias (cell id)))
    (by
      intro seen k here s state
      obtain ⟨_, inside⟩ := eq_length_of_prefix_range here
      rw [at'_vec inside, at'_vec inside, List.foldl_append, ← state]
      exact ⟨_, rfl, rfl⟩)
    rfl
  rw [done, value, Factorization.predict, part.factors]

end Prediction

section Maps
variable [Zero F] [Add F] {m : IdMap F} {k k' : Int32}

theorem lookup_addToMap_self (x : F) : (addToMap m k x).lookup k = some ((m.lookup k).getD 0 + x) :=
  AList.lookup_insert m

theorem lookup_addToMap_ne (apart : k' ≠ k) (x : F) : (addToMap m k x).lookup k' = m.lookup k' :=
  AList.lookup_insert_ne apart

theorem mem_addToMap (x : F) : k' ∈ addToMap m k x ↔ k' = k ∨ k' ∈ m := AList.mem_insert m

end Maps

theorem toInt_injective {a b : Nat} (small : a < 2 ^ 31) (small' : b < 2 ^ 31)
    (same : toInt a = toInt b) : a = b := by
  have values := congrArg Int32.toInt same
  rw [LRSparseGradient.toInt_toInt small, LRSparseGradient.toInt_toInt small'] at values
  exact Int.ofNat.inj values

section Gathering
variable [AddCommGroup F]

/-- What a call has collected for users: the difference between the parameters now and at its start.
`begun` users have a gradient of their bias, and `finished` ones have one of their factors as well. -/
structure UsersGathered (base begun finished : Nat) (p₀ p : Params Nat Nat F) (biases : IdMap F)
    (factors : List (Int32 × List F)) : Prop where
  bias : ∀ j < begun, biases.lookup (toInt (base + j)) =
    some (p.userBias (base + j) - p₀.userBias (base + j))
  keys : ∀ k ∈ biases, ∃ j < begun, k = toInt (base + j)
  vectors : factors = (List.range finished).map fun j =>
    (toInt (base + j), vec numFactors fun k => p.userFactors (base + j) k - p₀.userFactors (base + j) k)
  still : ∀ u, (∀ j < begun, u ≠ base + j) →
    p.userBias u = p₀.userBias u ∧ p.userFactors u = p₀.userFactors u

/-- What it has collected for items, of which those with a gradient are listed. -/
structure ItemsGathered (p₀ p : Params Nat Nat F) (biases : IdMap F) (factors : Fin itemSlots → List F)
    (listed : List (Fin itemSlots)) : Prop where
  bias : ∀ slot ∈ listed, biases.lookup (toInt slot) = some (p.itemBias slot - p₀.itemBias slot)
  keys : ∀ k ∈ biases, ∃ slot ∈ listed, k = toInt slot
  vectors : ∀ slot, factors slot = gathered (slot ∈ listed) numFactors
    fun k => p.itemFactors slot k - p₀.itemFactors slot k
  still : ∀ i, (∀ slot ∈ listed, i ≠ slot.val) →
    p.itemBias i = p₀.itemBias i ∧ p.itemFactors i = p₀.itemFactors i
  distinct : listed.Nodup

theorem UsersGathered.start {base : Nat} (p₀ : Params Nat Nat F) : UsersGathered base 0 0 p₀ p₀ ∅ [] where
  bias := nofun
  keys := nofun
  vectors := rfl
  still _ _ := ⟨rfl, rfl⟩

theorem ItemsGathered.start (p₀ : Params Nat Nat F) : ItemsGathered p₀ p₀ ∅ (fun _ => []) [] where
  bias := nofun
  keys := nofun
  vectors _ := rfl
  still _ _ := ⟨rfl, rfl⟩
  distinct := .nil

variable {base j : Nat} {p₀ p : Params Nat Nat F} {biases : IdMap F}

theorem UsersGathered.begin {factors : List (Int32 × List F)} (small : base + j < 2 ^ 31)
    (users : UsersGathered base j j p₀ p biases factors) :
    UsersGathered base (j + 1) j p₀ p (biases.insert (toInt (base + j)) 0) factors where
  bias := by
    intro i below
    rcases Nat.lt_succ_iff_lt_or_eq.mp below with before | rfl
    · have apart : toInt (base + i) ≠ toInt (base + j) := by
        intro same
        have := toInt_injective (by omega) small same
        omega
      rw [AList.lookup_insert_ne apart]
      exact users.bias i before
    · have fresh := users.still (base + i) (by omega)
      rw [AList.lookup_insert, fresh.1, sub_self]
  keys := by
    intro k member
    rcases (AList.mem_insert _).mp member with rfl | before
    · exact ⟨j, Nat.lt_succ_self j, rfl⟩
    · obtain ⟨i, below, same⟩ := users.keys k before
      exact ⟨i, Nat.lt_succ_of_lt below, same⟩
  vectors := users.vectors
  still u other := users.still u fun i below => other i (Nat.lt_succ_of_lt below)

theorem UsersGathered.finish {factors : List (Int32 × List F)}
    (users : UsersGathered base (j + 1) j p₀ p biases factors) :
    UsersGathered base (j + 1) (j + 1) p₀ p biases (factors ++ [(toInt (base + j),
      vec numFactors fun k => p.userFactors (base + j) k - p₀.userFactors (base + j) k)]) where
  bias := users.bias
  keys := users.keys
  vectors := by rw [users.vectors, List.range_succ, List.map_append, List.map_singleton]
  still := users.still

end Gathering

section Moves
variable [Ring F] {d : Descent F} {base j : Nat} {p₀ p : Params Nat Nat F} {r : Rating Nat Nat F}
  {biases : IdMap F}

theorem UsersGathered.move {factors : List (Int32 × List F)} (small : base + j < 2 ^ 31)
    (users : UsersGathered base (j + 1) j p₀ p biases factors) (user : r.user = base + j) :
    UsersGathered base (j + 1) j p₀ (d.move p r)
      (addToMap biases (toInt (base + j)) (d.userBiasDelta p r)) factors where
  bias := by
    intro i below
    rcases Nat.lt_succ_iff_lt_or_eq.mp below with before | rfl
    · have apart : toInt (base + i) ≠ toInt (base + j) := by
        intro same
        have := toInt_injective (by omega) small same
        omega
      rw [lookup_addToMap_ne apart, users.bias i below, (d.move_user_ne p r (by omega)).1]
    · rw [lookup_addToMap_self, users.bias i below, ← user, d.move_userBias_self, Option.getD_some,
        sub_add_eq_add_sub]
  keys := by
    intro k member
    rcases (mem_addToMap _).mp member with rfl | before
    · exact ⟨j, Nat.lt_succ_self j, rfl⟩
    · exact users.keys k before
  vectors := by
    rw [users.vectors]
    apply List.map_congr_left
    intro i member
    have before := List.mem_range.mp member
    rw [(d.move_user_ne p r (by omega)).2]
  still := by
    intro u other
    obtain ⟨bias, own⟩ := d.move_user_ne p r (user ▸ other j (Nat.lt_succ_self j))
    obtain ⟨bias', own'⟩ := users.still u other
    exact ⟨bias.trans bias', own.trans own'⟩

variable {factors : Fin itemSlots → List F} {listed : List (Fin itemSlots)} {slot : Fin itemSlots}

theorem slot_toInt_ne {slot' : Fin itemSlots} (apart : slot' ≠ slot) : toInt slot' ≠ toInt slot := by
  intro same
  have inside := slot.isLt
  have inside' := slot'.isLt
  have small : itemSlots < 2 ^ 31 := by decide
  exact apart (Fin.ext (toInt_injective (by omega) (by omega) same))

theorem ItemsGathered.before (items : ItemsGathered p₀ p biases factors listed) (slot : Fin itemSlots) :
    (biases.lookup (toInt slot)).getD 0 = p.itemBias slot - p₀.itemBias slot := by
  rcases List.instDecidableMemOfLawfulBEq slot listed with absent | member
  · have other : ∀ slot' ∈ listed, slot' ≠ slot := fun slot' member same => absent (same ▸ member)
    have none : toInt slot ∉ biases := by
      intro key
      obtain ⟨slot', member, same⟩ := items.keys _ key
      exact slot_toInt_ne (other slot' member) same.symm
    have fresh := items.still slot fun slot' member same => other slot' member (Fin.ext same.symm)
    rw [AList.lookup_eq_none.mpr none, fresh.1, sub_self]
    rfl
  · rw [items.bias slot member, Option.getD_some]

theorem ItemsGathered.fresh (items : ItemsGathered p₀ p biases factors listed) (slot : Fin itemSlots)
    (absent : slot ∉ listed) (k : Nat) : p.itemFactors slot k - p₀.itemFactors slot k = 0 := by
  have other := items.still slot fun slot' member same => absent (Fin.ext same ▸ member)
  rw [other.2, sub_self]

theorem ItemsGathered.move (items : ItemsGathered p₀ p biases factors listed) (item : r.item = slot.val) :
    ItemsGathered p₀ (d.move p r) (addToMap biases (toInt slot) (d.itemBiasDelta p r))
      (Function.update factors slot
        (vec numFactors fun k => p.itemFactors slot k - p₀.itemFactors slot k + d.itemDelta p r k))
      (if slot ∈ listed then listed else listed ++ [slot]) := by
  have listed' : ∀ slot', slot' ∈ (if slot ∈ listed then listed else listed ++ [slot]) ↔
      slot' ∈ listed ∨ slot' = slot := by
    intro slot'
    split
    next member => simp only [or_iff_left_of_imp fun same : slot' = slot => same ▸ member]
    next => simp
  have apart_of : ∀ {slot'}, slot' ≠ slot → slot'.val ≠ r.item := by
    intro slot' apart same
    exact apart (Fin.ext (same.trans item))
  constructor
  · intro slot' member
    rcases decEq slot' slot with apart | rfl
    · have before := ((listed' slot').mp member).resolve_right apart
      rw [lookup_addToMap_ne (slot_toInt_ne apart), items.bias slot' before,
        (d.move_item_ne p r (apart_of apart)).1]
    · rw [lookup_addToMap_self, items.before, ← item, d.move_itemBias_self, sub_add_eq_add_sub]
  · intro k member
    rcases (mem_addToMap _).mp member with rfl | before
    · exact ⟨slot, (listed' slot).mpr (.inr rfl), rfl⟩
    · obtain ⟨slot', there, same⟩ := items.keys k before
      exact ⟨slot', (listed' slot').mpr (.inl there), same⟩
  · intro slot'
    rcases decEq slot' slot with apart | rfl
    · rw [Function.update_of_ne apart, items.vectors slot', (d.move_item_ne p r (apart_of apart)).2]
      simp only [gathered, listed', apart, or_false]
    · rw [Function.update_self, gathered, if_pos ((listed' slot').mpr (.inr rfl))]
      congr 1
      funext k
      rw [← item, d.move_itemFactors_self, sub_add_eq_add_sub]
  · intro i other
    have apart : i ≠ r.item := item ▸ other slot ((listed' slot).mpr (.inr rfl))
    obtain ⟨bias, own⟩ := d.move_item_ne p r apart
    obtain ⟨bias', own'⟩ := items.still i fun slot' member => other slot' ((listed' slot').mpr (.inl member))
    exact ⟨bias.trans bias', own.trans own'⟩
  · split
    next => exact items.distinct
    next absent =>
      rw [List.nodup_append]
      refine ⟨items.distinct, List.nodup_singleton slot, ?_⟩
      intro a member b single same
      exact absent (List.mem_singleton.mp single ▸ same ▸ member)

structure Underway (d : Descent F) (base m : Nat) (known : Nat → Prop) (p₀ : Params Nat Nat F) (j : Nat)
    (p : Params Nat Nat F) (s : Minibatch F) : Prop where
  part : Part d base m known p s.model
  users : UsersGathered base (j + 1) j p₀ p s.gradient.usersBiasGrad s.gradient.usersWeightsGrad
  items : ItemsGathered p₀ p s.gradient.itemsBiasGrad s.itemWeightsGradMap s.itemWeightsLst
  listed : ∀ slot ∈ s.itemWeightsLst, known slot
  current : s.userWeightsGrad =
    vec numFactors fun k => p.userFactors (base + j) k - p₀.userFactors (base + j) k

variable {m : Nat} {known : Nat → Prop} {s : Minibatch F}

theorem Part.move {L : SparseMFModel F} (part : Part d base m known p L) {userId : Int32}
    (bound : j < m) (user : r.user = base + j) (item : r.item = slot.val) :
    Part d base m known (d.move p r) { L with
      userModels := L.userModels.set j (userId, p.userBias (base + j) + d.userBiasDelta p r,
        vec numFactors fun k => p.userFactors (base + j) k + d.userDelta p r k)
      itemModels := Function.update L.itemModels slot (p.itemBias slot + d.itemBiasDelta p r,
        vec numFactors fun k => p.itemFactors slot k + d.itemDelta p r k) } where
  users := by
    intro i inside
    rcases Nat.decEq i j with apart | rfl
    · obtain ⟨id, found⟩ := part.users i inside
      obtain ⟨bias, own⟩ := d.move_user_ne p r (show base + i ≠ r.user by omega)
      refine ⟨id, ?_⟩
      rw [List.getElem?_set_ne (Ne.symm apart), found, bias, own]
    · refine ⟨userId, ?_⟩
      rw [List.getElem?_set_self (by rwa [part.count]), ← user, d.move_userBias_self,
        d.move_userFactors_self]
  count := by rw [List.length_set, part.count]
  items := by
    intro slot' there
    dsimp only
    rcases decEq slot' slot with apart | rfl
    · have other : slot'.val ≠ r.item := fun same => apart (Fin.ext (same.trans item))
      obtain ⟨bias, own⟩ := d.move_item_ne p r other
      rw [Function.update_of_ne apart, part.items slot' there, bias, own]
    · rw [Function.update_self, ← item, d.move_itemBias_self, d.move_itemFactors_self]
  nfactors := part.nfactors
  factors := part.factors
  globalBias := part.globalBias
  reg := part.reg

theorem rate_underway (under : Underway d base m known p₀ j p s) (bound : j < m)
    (small : base + j < 2 ^ 31) {user : UInt64} (here : user.toNat = base + j) {e : Int32 × F}
    (inside : cell e.1 < itemSlots) (there : known (cell e.1)) :
    ∃ s', SparseMFModel.rate d.rate user j s e = .ok s' ∧
      Underway d base m known p₀ j (d.move p ⟨base + j, cell e.1, e.2⟩) s' := by
  let r : Rating Nat Nat F := ⟨base + j, cell e.1, e.2⟩
  let slot : Fin itemSlots := ⟨cell e.1, inside⟩
  have part := under.part
  have pred := predict_part part bound (by omega) inside there
  obtain ⟨userId, own⟩ := userModel_part part bound
  have item : s.model.itemModels ⟨cell e.1, inside⟩ = (p.itemBias (cell e.1), vec numFactors (p.itemFactors (cell e.1))) :=
    part.items slot there
  have userMoved : SparseMFModel.moveUser s.model.nfactors.toNat d.rate (d.error p r) s.model.userFactReg
      (vec numFactors (p.itemFactors (cell e.1))) (s.userWeightsGrad, vec numFactors (p.userFactors (base + j))) =
      .ok (vec numFactors fun k =>
          p.userFactors (base + j) k - p₀.userFactors (base + j) k + d.userDelta p r k,
        vec numFactors fun k => p.userFactors (base + j) k + d.userDelta p r k) := by
    have reg : s.model.userFactReg = d.reg.userFactors := congrArg Regularization.userFactors part.reg
    rw [part.nfactors, under.current, reg]
    exact moveUser_vec
  have itemMoved : SparseMFModel.moveItem s.model.nfactors.toNat d.rate (d.error p r) s.model.itemFactReg
      (vec numFactors fun k => p.userFactors (base + j) k + d.userDelta p r k) slot
      { grad := s.itemWeightsGradMap slot
        listed := s.itemWeightsLst
        weights := vec numFactors (p.itemFactors (cell e.1)) } = .ok
      { grad := vec numFactors fun k =>
          p.itemFactors slot k - p₀.itemFactors slot k + d.itemDelta p r k
        listed := if slot ∈ s.itemWeightsLst then s.itemWeightsLst else s.itemWeightsLst ++ [slot]
        weights := vec numFactors fun k => p.itemFactors slot k + d.itemDelta p r k } := by
    have reg : s.model.itemFactReg = d.reg.itemFactors := congrArg Regularization.itemFactors part.reg
    rw [part.nfactors, reg, under.items.vectors slot]
    exact moveItem_vec (under.items.fresh slot)
  have userBias : biasDelta d.rate (e.2 - Factorization.predict d.factors d.globalBias p (base + j) (cell e.1))
      s.model.userBiasReg (p.userBias (base + j)) = d.userBiasDelta p r := by
    have reg : s.model.userBiasReg = d.reg.userBias := congrArg Regularization.userBias part.reg
    rw [reg]
    rfl
  have itemBias : biasDelta d.rate (e.2 - Factorization.predict d.factors d.globalBias p (base + j) (cell e.1))
      s.model.itemBiasReg (p.itemBias (cell e.1)) = d.itemBiasDelta p r := by
    have reg : s.model.itemBiasReg = d.reg.itemBias := congrArg Regularization.itemBias part.reg
    rw [reg]
    rfl
  let s' : Minibatch F :=
    { model := { s.model with
        userModels := s.model.userModels.set j (userId, p.userBias (base + j) + d.userBiasDelta p r,
          vec numFactors fun k => p.userFactors (base + j) k + d.userDelta p r k)
        itemModels := Function.update s.model.itemModels slot (p.itemBias slot + d.itemBiasDelta p r,
          vec numFactors fun k => p.itemFactors slot k + d.itemDelta p r k) }
      gradient := { s.gradient with
        usersBiasGrad := addToMap s.gradient.usersBiasGrad (toInt (base + j)) (d.userBiasDelta p r)
        itemsBiasGrad := addToMap s.gradient.itemsBiasGrad (toInt slot) (d.itemBiasDelta p r) }
      userWeightsGrad := vec numFactors fun k =>
        p.userFactors (base + j) k - p₀.userFactors (base + j) k + d.userDelta p r k
      itemWeightsGradMap := Function.update s.itemWeightsGradMap slot
        (vec numFactors fun k => p.itemFactors slot k - p₀.itemFactors slot k + d.itemDelta p r k)
      itemWeightsLst := if slot ∈ s.itemWeightsLst then s.itemWeightsLst else s.itemWeightsLst ++ [slot] }
  refine ⟨s', ?_, part.move bound rfl rfl, under.users.move small rfl, under.items.move rfl, ?_, ?_⟩
  · simp only [SparseMFModel.rate, bind_of_ok pred, bind_of_ok own, bind_of_ok (itemSlot_wide inside), item]
    rw [here, userBias, itemBias]
    refine (bind_of_ok userMoved _).trans ?_
    exact (bind_of_ok itemMoved _).trans rfl
  · intro slot' member
    dsimp only [s'] at member
    split at member
    next => exact under.listed slot' member
    next =>
      rcases List.mem_append.mp member with before | here
      · exact under.listed slot' before
      · rw [List.mem_singleton.mp here]
        exact there
  · have moved : (d.move p ⟨base + j, cell e.1, e.2⟩).userFactors (base + j) =
        fun k => p.userFactors (base + j) k + d.userDelta p r k := d.move_userFactors_self p r
    simp only [s', moved, sub_add_eq_add_sub]

def rowRatings (base : Nat) (sample : List (Int32 × F) × Nat) : List (Rating Nat Nat F) :=
  sample.1.map fun e => ⟨base + sample.2, cell e.1, e.2⟩

def ratings (base : Nat) (ds : SparseDataset F) : List (Rating Nat Nat F) :=
  ds.data.zipIdx.flatMap (rowRatings base)

structure Between (d : Descent F) (base m : Nat) (known : Nat → Prop) (p₀ : Params Nat Nat F) (j : Nat)
    (p : Params Nat Nat F) (s : Minibatch F) : Prop where
  part : Part d base m known p s.model
  users : UsersGathered base j j p₀ p s.gradient.usersBiasGrad s.gradient.usersWeightsGrad
  items : ItemsGathered p₀ p s.gradient.itemsBiasGrad s.itemWeightsGradMap s.itemWeightsLst
  listed : ∀ slot ∈ s.itemWeightsLst, known slot

theorem rateUser_between (between : Between d base m known p₀ j p s) (bound : j < m)
    (small : base + j < 2 ^ 31) {baseUser : UInt64} (start : baseUser.toNat = base)
    {row : List (Int32 × F)} (inside : ∀ e ∈ row, cell e.1 < itemSlots ∧ known (cell e.1)) :
    ∃ s', SparseMFModel.rateUser d.rate baseUser s (row, j) = .ok s' ∧
      Between d base m known p₀ (j + 1) (d.descend p (rowRatings base (row, j))) s' := by
  have here : (baseUser + UInt64.ofNat j).toNat = base + j := by
    rw [UInt64.toNat_add, UInt64.toNat_ofNat_of_lt' (by rw [UInt64.size]; omega), start]
    omega
  have untouched := between.users.still (base + j) (by omega)
  have started : Underway d base m known p₀ j p { s with
      gradient := { s.gradient with
        usersBiasGrad := s.gradient.usersBiasGrad.insert (toInt (base + j)) 0 }
      userWeightsGrad := List.replicate numFactors 0 } := by
    refine ⟨between.part, between.users.begin small, between.items, between.listed, ?_⟩
    apply eq_vec List.length_replicate
    intro k below
    rw [List.getElem?_replicate, if_pos below, untouched.2, sub_self]
  obtain ⟨s', done, under⟩ := foldlM_gives
    (P := fun seen s => Underway d base m known p₀ j (d.descend p (rowRatings base (seen, j))) s)
    (fun seen e before s under => by
      obtain ⟨slot, there⟩ := inside e (mem_of_here before)
      obtain ⟨s', one, under'⟩ := rate_underway under bound small here slot there
      refine ⟨s', one, ?_⟩
      rw [rowRatings, List.map_append, List.map_singleton, d.descend_concat]
      exact under')
    started
  let finished : Minibatch F := { s' with gradient := { s'.gradient with
    usersWeightsGrad := s'.gradient.usersWeightsGrad ++ [(toInt (base + j), s'.userWeightsGrad)] } }
  refine ⟨finished, ?_, under.part, ?_, under.items, under.listed⟩
  · simp only [SparseMFModel.rateUser, here]
    exact bind_of_ok done _
  · simp only [finished]
    rw [under.current]
    exact under.users.finish

/-- The call makes the descent on the worker's part of the model. -/
theorem minibatchGrad_gives {L : SparseMFModel F} {ds : SparseDataset F} (config : Configuration F)
    {baseUser : UInt64} (part : Part d baseUser.toNat ds.data.length known p₀ L)
    (small : ∀ j < ds.data.length, baseUser.toNat + j < 2 ^ 31) (rate : config.learningRate = d.rate)
    (inside : ∀ row ∈ ds.data, ∀ e ∈ row, cell e.1 < itemSlots ∧ known (cell e.1)) :
    ∃ s, SparseMFModel.minibatchGrad L ds config baseUser = .ok (s.model, { s.gradient with
        itemsWeightsGrad := s.itemWeightsLst.map fun slot => (toInt slot.val, s.itemWeightsGradMap slot) }) ∧
      Between d baseUser.toNat ds.data.length known p₀ ds.data.length
        (d.descend p₀ (ratings baseUser.toNat ds)) s := by
  obtain ⟨s, done, between⟩ := foldlM_gives (l := ds.data.zipIdx)
    (P := fun seen s => Between d baseUser.toNat ds.data.length known p₀ seen.length
      (d.descend p₀ (seen.flatMap (rowRatings baseUser.toNat))) s)
    (fun seen sample before s between => by
      obtain ⟨row, j⟩ := sample
      obtain ⟨here, found⟩ := getElem?_of_prefix_zipIdx before
      dsimp only at here found
      subst here
      obtain ⟨bound, _⟩ := List.getElem?_eq_some_iff.mp found
      obtain ⟨s', one, between'⟩ := rateUser_between between bound (small _ bound) rfl
        (inside row (List.mem_of_getElem? found))
      refine ⟨s', one, ?_⟩
      rw [List.length_append, List.length_singleton, List.flatMap_append, List.flatMap_singleton,
        d.descend_append]
      exact between')
    (s := { model := L }) ⟨part, .start p₀, .start p₀, nofun⟩
  rw [List.length_zipIdx] at between
  refine ⟨s, ?_, between⟩
  rw [SparseMFModel.minibatchGrad, rate, bind_of_ok done]
  rfl

end Moves
end MF

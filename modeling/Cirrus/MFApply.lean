import Cirrus.MFDense

/-!
What the server does with a worker's gradient: adding the collected differences
to the parameters from which the worker started gives the parameters that the
worker has reached.
-/
namespace MF
open Gradients SparseLR Factorization Loops
variable {F : Type}

theorem cell_toInt {n : Nat} (small : n < 2 ^ 31) : cell (toInt n) = n := by
  have value : (toInt n).toInt = n := LRSparseGradient.toInt_toInt small
  rw [cell_of_natural (by omega), value]
  rfl

theorem cell_toInt_large {n : Nat} (large : 2 ^ 31 ≤ n) (bound : n < 2 ^ 32) : 2 ^ 63 ≤ cell (toInt n) := by
  apply cell_of_negative
  have value : (toInt n).toInt = (n : Int).bmod (2 ^ 32) := Int32.toInt_ofNat'
  rw [value, Int.bmod]
  split <;> omega

namespace MFModel

theorem mem_pairs {m : IdMap F} {e : Int32 × F} :
    e ∈ MFSparseGradient.pairs m ↔ m.lookup e.1 = some e.2 := by
  rw [MFSparseGradient.pairs, List.mem_map, ← Option.mem_def, AList.mem_lookup_iff]
  constructor
  · intro ⟨entry, member, same⟩
    rw [← same]
    exact member
  · intro member
    exact ⟨_, member, rfl⟩

theorem pairs_distinct (m : IdMap F) : ((MFSparseGradient.pairs m).map fun e => cell e.1).Nodup := by
  have keys : (MFSparseGradient.pairs m).map (fun e => cell e.1) = m.keys.map cell := by
    rw [MFSparseGradient.pairs, List.map_map, AList.keys, List.keys, List.map_map]
    rfl
  rw [keys]
  exact m.keys_nodup.map cell_injective

theorem addBiases_inside [Add F] {bias v : List F} {gradient : List (Int32 × F)}
    (done : addBiases bias gradient = .ok v) : ∀ e ∈ gradient, cell e.1 < bias.length := by
  have ends := foldlM_ends
    (P := fun seen now => now.length = bias.length ∧ ∀ e ∈ seen, cell e.1 < bias.length)
    (by
      intro seen e before now next ⟨size, inside⟩ one
      obtain ⟨x, found, rfl⟩ := addAt_ok.mp one
      obtain ⟨here, _⟩ := List.getElem?_eq_some_iff.mp found
      refine ⟨by rw [List.length_set, size], ?_⟩
      intro e' member
      rcases List.mem_append.mp member with earlier | last
      · exact inside e' earlier
      · rw [List.mem_singleton.mp last]
        omega)
    ⟨rfl, nofun⟩ done
  exact ends.2

section Adding
variable [AddCommGroup F] {n : Nat}

theorem addBiases_vec {gradient : List (Int32 × F)} {before after : Nat → F}
    (distinct : (gradient.map fun e => cell e.1).Nodup)
    (each : ∀ e ∈ gradient, cell e.1 < n ∧ e.2 = after (cell e.1) - before (cell e.1))
    (still : ∀ u, (∀ e ∈ gradient, cell e.1 ≠ u) → after u = before u) :
    addBiases (vec n before) gradient = .ok (vec n after) := by
  apply foldlM_replaces distinct _ still
  intro e member f value
  obtain ⟨bound, difference⟩ := each e member
  rw [addAt_vec bound, value, difference, add_sub_cancel]

theorem addVector_grid {nfactors : UInt64} (known : nfactors = UInt64.ofNat numFactors)
    (size : n * numFactors ≤ maxSize) {id : Int32} (bound : cell id < n) {f : Nat → Nat → F} {d : Nat → F} :
    addVector nfactors (grid n f) (id, vec numFactors d) =
      .ok (grid n (Function.update f (cell id) fun k => f (cell id) k + d k)) := by
  obtain ⟨s, done, rfl⟩ := foldlM_gives (l := (vec numFactors d).zipIdx) (s := grid n f)
    (f := fun weights x =>
      addCheckedAt weights (id.toInt64.toUInt64 * nfactors + UInt64.ofNat x.2).toNat x.1)
    (P := fun seen s => s = grid n (Function.update f (cell id) (partway seen.length (f (cell id)) d)))
    (by
      intro seen x here s state
      subst state
      obtain ⟨index, found⟩ := getElem?_of_prefix_zipIdx here
      have inside : seen.length < numFactors := by
        obtain ⟨inside, _⟩ := List.getElem?_eq_some_iff.mp found
        rwa [vec_length] at inside
      rw [vec_getElem? inside] at found
      rw [index, ← Option.some.inj found, List.length_append, List.length_singleton]
      exact ⟨_, addCheckedAt_partway known size bound inside, rfl⟩)
    (by rw [List.length_nil, partway_zero, Function.update_eq_self])
  have size' : ¬ (vec numFactors d).length ≠ numFactors := not_not_intro vec_length
  rw [List.length_zipIdx, vec_length, grid_moved] at done
  rw [addVector, if_neg size']
  exact done

theorem addVectors_grid {nfactors : UInt64} (known : nfactors = UInt64.ofNat numFactors)
    (size : n * numFactors ≤ maxSize) {gradient : List (Int32 × List F)} {before after : Nat → Nat → F}
    (distinct : (gradient.map fun e => cell e.1).Nodup)
    (each : ∀ e ∈ gradient, cell e.1 < n ∧
      e.2 = vec numFactors fun k => after (cell e.1) k - before (cell e.1) k)
    (still : ∀ u, (∀ e ∈ gradient, cell e.1 ≠ u) → after u = before u) :
    gradient.foldlM (addVector nfactors) (grid n before) = .ok (grid n after) := by
  apply foldlM_replaces distinct _ still
  intro e member f value
  obtain ⟨id, vector⟩ := e
  obtain ⟨bound, difference⟩ := each _ member
  dsimp only at value bound difference ⊢
  rw [difference, addVector_grid known size bound, value]
  simp only [add_sub_cancel]

theorem addBiases_map {ids : List Nat} {m : IdMap F} {before after : Nat → F}
    (inside : ∀ i ∈ ids, i < n ∧ i < 2 ^ 31)
    (values : ∀ i ∈ ids, m.lookup (toInt i) = some (after i - before i))
    (keys : ∀ k ∈ m, ∃ i ∈ ids, k = toInt i) (still : ∀ u, u ∉ ids → after u = before u) :
    addBiases (vec n before) (MFSparseGradient.pairs m) = .ok (vec n after) := by
  apply addBiases_vec (pairs_distinct m)
  · intro e member
    have found := mem_pairs.mp member
    obtain ⟨i, listed, key⟩ := keys e.1 (AList.lookup_isSome.mp (by rw [found]; rfl))
    obtain ⟨bound, small⟩ := inside i listed
    rw [key, values i listed] at found
    rw [key, cell_toInt small]
    exact ⟨bound, (Option.some.inj found).symm⟩
  · intro u absent
    apply still u
    intro listed
    exact absent (toInt u, after u - before u) (mem_pairs.mpr (values u listed)) (cell_toInt (inside u listed).2)

theorem addVectors_ids {nfactors : UInt64} (known : nfactors = UInt64.ofNat numFactors)
    (size : n * numFactors ≤ maxSize) {ids : List Nat} {before after : Nat → Nat → F}
    (distinct : ids.Nodup) (inside : ∀ i ∈ ids, i < n ∧ i < 2 ^ 31)
    (still : ∀ u, u ∉ ids → after u = before u) :
    (ids.map fun i => (toInt i, vec numFactors fun k => after i k - before i k)).foldlM (addVector nfactors)
      (grid n before) = .ok (grid n after) := by
  have cells : ids.map (fun i => cell (toInt i)) = ids := by
    have each : ∀ i ∈ ids, cell (toInt i) = i := fun i member => cell_toInt (inside i member).2
    rw [List.map_congr_left each, List.map_id']
  apply addVectors_grid known size
  · rw [List.map_map]
    change (ids.map fun i => cell (toInt i)).Nodup
    rwa [cells]
  · intro e member
    obtain ⟨i, listed, rfl⟩ := List.mem_map.mp member
    dsimp only
    rw [cell_toInt (inside i listed).2]
    exact ⟨(inside i listed).1, rfl⟩
  · intro u absent
    apply still u
    intro listed
    exact absent _ (List.mem_map.mpr ⟨u, listed, rfl⟩) (cell_toInt (inside u listed).2)

end Adding

theorem sgdUpdate_gathered [AddCommGroup F] {m : MFModel F} (formed : m.WellFormed) {base count : Nat}
    {p₀ p : Params Nat Nat F} {g : MFSparseGradient F} {factors : Fin itemSlots → List F}
    {listed : List (Fin itemSlots)}
    (users : UsersGathered base count count p₀ p g.usersBiasGrad g.usersWeightsGrad)
    (items : ItemsGathered p₀ p g.itemsBiasGrad factors listed)
    (sent : g.itemsWeightsGrad = listed.map fun slot => (toInt slot.val, factors slot))
    (inside : base + count ≤ m.nusers.toNat) (small : ∀ j < count, base + j < 2 ^ 31)
    (inside' : ∀ slot ∈ listed, slot.val < m.nitems.toNat) :
    (m.withParams p₀).sgdUpdate g = .ok (m.withParams p) := by
  let userIds := (List.range count).map (base + ·)
  let itemIds := listed.map Fin.val
  have user : ∀ u, u ∈ userIds ↔ ∃ j < count, base + j = u := fun u => by
    simp only [userIds, List.mem_map, List.mem_range]
  have item : ∀ i, i ∈ itemIds ↔ ∃ slot ∈ listed, slot.val = i := fun i => List.mem_map
  have userInside : ∀ u ∈ userIds, u < m.nusers.toNat ∧ u < 2 ^ 31 := by
    intro u member
    obtain ⟨j, below, rfl⟩ := (user u).mp member
    exact ⟨by omega, small j below⟩
  have itemInside : ∀ i ∈ itemIds, i < m.nitems.toNat ∧ i < 2 ^ 31 := by
    intro i known
    obtain ⟨slot, member, rfl⟩ := (item i).mp known
    exact ⟨inside' slot member, Nat.lt_trans slot.isLt (by decide)⟩
  have userStill : ∀ u, u ∉ userIds → p.userBias u = p₀.userBias u ∧ p.userFactors u = p₀.userFactors u :=
    fun u absent => users.still u fun j below same => absent ((user u).mpr ⟨j, below, same.symm⟩)
  have itemStill : ∀ i, i ∉ itemIds → p.itemBias i = p₀.itemBias i ∧ p.itemFactors i = p₀.itemFactors i :=
    fun i absent => items.still i fun slot member same => absent ((item i).mpr ⟨slot, member, same.symm⟩)
  have userBias : addBiases (vec m.nusers.toNat p₀.userBias) (MFSparseGradient.pairs g.usersBiasGrad) =
      .ok (vec m.nusers.toNat p.userBias) := by
    apply addBiases_map userInside _ _ fun u absent => (userStill u absent).1
    · intro u member
      obtain ⟨j, below, rfl⟩ := (user u).mp member
      exact users.bias j below
    · intro k member
      obtain ⟨j, below, same⟩ := users.keys k member
      exact ⟨base + j, (user _).mpr ⟨j, below, rfl⟩, same⟩
  have itemBias : addBiases (vec m.nitems.toNat p₀.itemBias) (MFSparseGradient.pairs g.itemsBiasGrad) =
      .ok (vec m.nitems.toNat p.itemBias) := by
    apply addBiases_map itemInside _ _ fun i absent => (itemStill i absent).1
    · intro i known
      obtain ⟨slot, member, rfl⟩ := (item i).mp known
      exact items.bias slot member
    · intro k member
      obtain ⟨slot, member, same⟩ := items.keys k member
      exact ⟨slot.val, (item _).mpr ⟨slot, member, rfl⟩, same⟩
  have userWeights : g.usersWeightsGrad.foldlM (addVector m.nfactors) (grid m.nusers.toNat p₀.userFactors) =
      .ok (grid m.nusers.toNat p.userFactors) := by
    have distinct : userIds.Nodup := List.nodup_range.map fun _ _ => Nat.add_left_cancel
    have vectors : g.usersWeightsGrad = userIds.map fun u =>
        (toInt u, vec numFactors fun k => p.userFactors u k - p₀.userFactors u k) := by
      rw [users.vectors, List.map_map]
      rfl
    rw [vectors]
    exact addVectors_ids formed.nfactors formed.users distinct userInside fun u absent => (userStill u absent).2
  have itemWeights : g.itemsWeightsGrad.foldlM (addVector m.nfactors) (grid m.nitems.toNat p₀.itemFactors) =
      .ok (grid m.nitems.toNat p.itemFactors) := by
    have distinct : itemIds.Nodup := items.distinct.map fun _ _ => Fin.ext
    have vectors : g.itemsWeightsGrad = itemIds.map fun i =>
        (toInt i, vec numFactors fun k => p.itemFactors i k - p₀.itemFactors i k) := by
      rw [sent, List.map_map]
      apply List.map_congr_left
      intro slot member
      rw [items.vectors slot, gathered, if_pos member]
      rfl
    rw [vectors]
    exact addVectors_ids formed.nfactors formed.items distinct itemInside fun i absent => (itemStill i absent).2
  refine (bind_of_ok userBias _).trans ?_
  refine (bind_of_ok itemBias _).trans ?_
  refine (bind_of_ok userWeights _).trans ?_
  exact bind_of_ok itemWeights _

end MFModel
end MF

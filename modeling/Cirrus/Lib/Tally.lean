import Mathlib

/-
Counters in an ordered map: how often each key of a list occurs. A counter is
there for the keys that do occur, and the counters together are the length of
the list. Nothing here mentions a particular program.
-/
namespace Tally
variable {K : Type} [Ord K]

/-- `map[k]++`, where a missing counter is 0. -/
def bump (counters : Std.TreeMap K Int32) (k : K) : Std.TreeMap K Int32 := counters.alter k fun n => some (n.getD 0 + 1)

def tally (keys : List K) : Std.TreeMap K Int32 := keys.foldl bump {}

theorem tally_concat (keys : List K) (k : K) : tally (keys ++ [k]) = bump (tally keys) k := by
  simp [tally]

variable [Std.TransOrd K]

theorem tally_sorted (keys : List K) : (tally keys).toList.Pairwise fun a b => compare a.1 b.1 = .lt :=
  Std.TreeMap.ordered_keys_toList

variable [Std.LawfulEqOrd K] [DecidableEq K]

theorem tally_get (keys : List K) (k : K) :
    (tally keys)[k]? = if k ∈ keys then some (Int32.ofNat (keys.count k)) else none := by
  induction keys using List.reverseRecOn with
  | nil => simp [tally]
  | append_singleton keys last ih =>
    rw [tally_concat, bump, Std.TreeMap.getElem?_alter, List.count_append]
    by_cases here : k = last
    · subst here
      have none_before : k ∉ keys → keys.count k = 0 := List.count_eq_zero_of_not_mem
      rw [if_pos (by simp), if_pos (by simp), ih, List.count_singleton_self, Int32.ofNat_add]
      split
      next => rfl
      next absent =>
        rw [none_before absent]
        rfl
    · have other : compare last k ≠ .eq := fun same => here (Std.LawfulEqOrd.eq_of_compare same).symm
      rw [if_neg other, ih]
      simp [here, Ne.symm here]

theorem mem_tally {keys : List K} {e : K × Int32} :
    e ∈ (tally keys).toList ↔ e.1 ∈ keys ∧ e.2 = Int32.ofNat (keys.count e.1) := by
  obtain ⟨k, n⟩ := e
  rw [Std.TreeMap.mem_toList_iff_getElem?_eq_some, tally_get]
  split
  next member => simp [member, eq_comm]
  next absent => simp [absent]

theorem tally_keys (keys : List K) : ((tally keys).toList.map Prod.fst).Perm keys.dedup := by
  apply (List.perm_ext_iff_of_nodup _ keys.nodup_dedup).mpr
  · intro k
    rw [List.mem_map, List.mem_dedup]
    constructor
    · rintro ⟨e, member, rfl⟩
      exact (mem_tally.mp member).1
    · exact fun member => ⟨(k, Int32.ofNat (keys.count k)), mem_tally.mpr ⟨member, rfl⟩, rfl⟩
  · rw [List.Nodup, List.pairwise_map]
    exact (tally_sorted keys).imp fun below same => by simp [same] at below

theorem tally_sum (keys : List K) : ((tally keys).toList.map fun e => keys.count e.1).sum = keys.length := by
  have counts := ((tally_keys keys).map fun k => keys.count k).sum_eq
  rw [List.map_map] at counts
  exact counts.trans (List.sum_map_count_dedup_eq_length keys)

end Tally

import Cirrus.MFApply

/-!
The gradient of a factorization in bytes. Its maps may be walked in any order,
which the reader does not need to know: it puts the pairs into maps of its own.
-/
namespace Gradients
open Decoder MF
variable {B F : Type}

namespace MFSparseGradient

section Maps
variable {m : IdMap F} {l : List (Int32 × F)}

theorem lookup_insertAll_absent {k : Int32} (absent : ∀ e ∈ l, e.1 ≠ k) : (insertAll m l).lookup k = m.lookup k := by
  induction l generalizing m with
  | nil => rfl
  | cons e rest ih =>
    rw [List.forall_mem_cons] at absent
    have later := ih (m := m.insert e.1 e.2) absent.2
    rw [AList.lookup_insert_ne (Ne.symm absent.1)] at later
    exact later

theorem lookup_insertAll_mem (distinct : (l.map (·.1)).Nodup) {e : Int32 × F} (member : e ∈ l) :
    (insertAll m l).lookup e.1 = some e.2 := by
  induction l generalizing m with
  | nil => cases member
  | cons first rest ih =>
    obtain ⟨apart, distinct⟩ := List.nodup_cons.mp distinct
    rcases List.mem_cons.mp member with rfl | later
    · have absent : ∀ other ∈ rest, other.1 ≠ e.1 := fun other there same => apart (List.mem_map.mpr ⟨other, there, same⟩)
      exact (lookup_insertAll_absent absent).trans (AList.lookup_insert _)
    · exact ih distinct later

theorem pairs_keys (m : IdMap F) : (pairs m).map (·.1) = m.keys := by
  rw [pairs, List.map_map]
  rfl

theorem lookup_insertAll_pairs (m : IdMap F) (k : Int32) : (insertAll ∅ (pairs m)).lookup k = m.lookup k := by
  cases found : m.lookup k with
  | some x =>
    have distinct : ((pairs m).map (·.1)).Nodup := by
      rw [pairs_keys]
      exact m.keys_nodup
    exact lookup_insertAll_mem distinct (e := (k, x)) (MFModel.mem_pairs.mpr found)
  | none =>
    apply lookup_insertAll_absent
    rintro ⟨k', x⟩ member rfl
    rw [MFModel.mem_pairs.mp member] at found
    cases found

end Maps

/-- The same biases under the same ids, and the same vectors in the same order. -/
structure SameGradient (g g' : MFSparseGradient F) : Prop where
  usersBias : ∀ k, g.usersBiasGrad.lookup k = g'.usersBiasGrad.lookup k
  itemsBias : ∀ k, g.itemsBiasGrad.lookup k = g'.itemsBiasGrad.lookup k
  usersWeights : g.usersWeightsGrad = g'.usersWeightsGrad
  itemsWeights : g.itemsWeightsGrad = g'.itemsWeightsGrad

theorem received_same (g : MFSparseGradient F) : SameGradient g.received g where
  usersBias := lookup_insertAll_pairs g.usersBiasGrad
  itemsBias := lookup_insertAll_pairs g.itemsBiasGrad
  usersWeights := rfl
  itemsWeights := rfl

/-- The size formula, the writer and the reader agree. -/
theorem gradient_round_trip (w : Wire B F) (g : MFSparseGradient F) (shaped : Shaped g)
    (users : g.usersBiasGrad.entries.length < 2 ^ 32) (items : g.itemsBiasGrad.entries.length < 2 ^ 32) :
    ∃ bytes loaded, g.serialize w = .ok bytes ∧ bytes.length = g.getSerializedSize ∧
      Decodes (loadSerialized w {}) bytes loaded ∧ SameGradient loaded g :=
  ⟨_, _, serialize_shaped w shaped, layout_length w shaped, loadSerialized_layout w shaped users items, received_same g⟩

def twoAndOne : MFSparseGradient UInt32 where
  usersBiasGrad := insertAll ∅ [(3, 2), (7, 1)]
  itemsBiasGrad := insertAll ∅ [(5, 4)]
  usersWeightsGrad := [(3, List.replicate numFactors 6), (7, List.replicate numFactors 8)]
  itemsWeightsGrad := [(5, List.replicate numFactors 9)]

theorem twoAndOne_shaped : Shaped twoAndOne where
  users := rfl
  items := rfl
  factors := List.forall_mem_cons.mpr ⟨rfl, List.forall_mem_cons.mpr ⟨rfl, List.forall_mem_singleton.mpr rfl⟩⟩

theorem gradient_round_trip_two : ∃ bytes loaded, twoAndOne.serialize Wire.littleEndian = .ok bytes ∧
    bytes.length = 172 ∧ Decodes (loadSerialized Wire.littleEndian {}) bytes loaded ∧ SameGradient loaded twoAndOne :=
  gradient_round_trip Wire.littleEndian twoAndOne twoAndOne_shaped (by decide) (by decide)

end MFSparseGradient
end Gradients

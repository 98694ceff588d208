import Cirrus.Gradients

/-!
`LRSparseGradient` in memory and back. The reader recomputes the size of the
message, as an `int`, and compares the distance it has come with it before each
entry; it keeps the object it loads into and what that object has allocated.
-/
namespace Gradients
open Decoder
variable {B F : Type} {w : Wire B F}

namespace LRSparseGradient

/-- `int size`, which the machine computes as a `size_t` first. -/
def messageSize (numWeights : Int32) : Int32 := toInt (numWeights.toInt.toNat * (4 + 4) + 2 * 4)

def pushWeight (w : Wire B F) (size : Int32) (weights : List (Int32 × F)) (i : Nat) : Decoder B (List (Int32 × F)) := do
  check ((i * (4 + 4) : Nat) < size.toInt) (.assertion "std::distance(data_begin, (char*)mem) < size")
  let index ← w.int.load
  let value ← w.feature.load
  pure (weights ++ [(index, value)])

/-- `loadSerialized` on an object that may have been used. -/
def loadInto (w : Wire B F) (old : LRSparseGradient F) : Decoder B (LRSparseGradient F) := do
  let version ← w.int.load
  let numWeights ← w.int.load
  check (0 < numWeights.toInt ∧ numWeights.toInt < maxWeights)
    (.assertion "num_weights > 0 && num_weights < 10000000")
  let weights ← (List.range numWeights.toInt.toNat).foldlM (pushWeight w (messageSize numWeights)) (old.weights.take 0)
  pure { old with weights := weights, version := version.toInt64.toUInt64 }

theorem toInt_messageSize {numWeights : Int32} (few : numWeights.toInt < maxWeights) :
    (messageSize numWeights).toInt = (numWeights.toInt.toNat * (4 + 4) + 2 * 4 : Nat) := by
  unfold maxWeights at few
  exact toInt_toInt (by omega)

theorem pushWeight_eq {numWeights : Int32} (few : numWeights.toInt < maxWeights) (weights : List (Int32 × F)) (i : Nat) :
    pushWeight w (messageSize numWeights) weights i =
      (loadWeight w (numWeights.toInt.toNat * (4 + 4) + 2 * 4) i >>= fun e => pure (weights ++ [e])) := by
  have same : ((i * (4 + 4) : Nat) < (messageSize numWeights).toInt) ↔
      i * (4 + 4) < numWeights.toInt.toNat * (4 + 4) + 2 * 4 := by
    rw [toInt_messageSize few, Int.ofNat_lt]
  unfold pushWeight loadWeight
  funext memory
  by_cases inside : i * (4 + 4) < numWeights.toInt.toNat * (4 + 4) + 2 * 4
  · rw [check_pos inside, check_pos (same.mpr inside), bind_ok (pure_apply () memory), bind_apply, bind_apply,
      bind_ok (pure_apply () memory), bind_apply]
    cases w.int.load memory with
    | error fault => rfl
    | ok q =>
      dsimp only
      rw [bind_apply, bind_apply]
      cases w.feature.load q.2 with
      | error fault => rfl
      | ok r => rfl
  · rw [check_neg inside, check_neg fun outside => inside (same.mp outside)]
    rfl

theorem loadInto_eq (w : Wire B F) (old : LRSparseGradient F) : loadInto w old = loadSerialized w := by
  funext memory
  unfold loadInto loadSerialized
  rw [bind_apply, bind_apply]
  cases w.int.load memory with
  | error fault => rfl
  | ok p =>
    dsimp only
    rw [bind_apply, bind_apply]
    cases w.int.load p.2 with
    | error fault => rfl
    | ok q =>
      dsimp only
      by_cases admitted : 0 < q.1.toInt ∧ q.1.toInt < maxWeights
      · rw [check_pos admitted, bind_ok (pure_apply () q.2), bind_ok (pure_apply () q.2), bind_apply, bind_apply]
        have turns : pushWeight w (messageSize q.1) = fun weights i =>
            loadWeight w (q.1.toInt.toNat * (4 + 4) + 2 * 4) i >>= fun e => pure (weights ++ [e]) := by
          funext weights i
          exact pushWeight_eq admitted.2 weights i
        rw [turns, List.take_zero, List.range_eq_range', foldlM_push]
        cases rounds (loadWeight w (q.1.toInt.toNat * (4 + 4) + 2 * 4)) 0 q.1.toInt.toNat q.2 with
        | error fault => rfl
        | ok r => rfl
      · rw [check_neg admitted]
        rfl

theorem loadWeight_rewrites (ints : w.int.Full) (features : w.feature.Full) (size i : Nat) :
    Rewrites (loadWeight w size i) (fun e => w.int.put e.1 ++ w.feature.put e.2) := by
  intro memory e rest done
  obtain ⟨⟨⟩, mid, checked, done⟩ := ok_of_bind done
  obtain ⟨index, after, first, done⟩ := ok_of_bind done
  obtain ⟨x, last, second, done⟩ := ok_of_bind done
  cases done
  unfold check at checked
  split at checked
  · cases checked
    rw [ints.load first, features.load second, List.append_assoc]
  · cases checked

theorem loaded_bmod (version : Int32) : (version.toInt64.toUInt64.toNat : Int).bmod (2 ^ 64) = version.toInt := by
  rw [← Int32.toInt_toInt64]
  exact (BitVec.toInt_eq_toNat_bmod _).symm

theorem received_small {g : LRSparseGradient F} (small : g.version.toNat < 2 ^ 31) : g.received = g := by
  have version : (toInt g.version.toNat).toInt64.toUInt64 = g.version := by
    have wide := loaded_bmod (toInt g.version.toNat)
    have below := UInt64.toNat_lt (toInt g.version.toNat).toInt64.toUInt64
    rw [toInt_toInt small, Int.bmod] at wide
    apply UInt64.toNat_inj.mp
    split at wide <;> omega
  rw [received, version]

theorem toInt_loaded (version : Int32) : toInt version.toInt64.toUInt64.toNat = version := by
  have wide := loaded_bmod version
  have above := version.le_toInt
  have below := version.toInt_lt
  have size : Int32.size = 2 ^ 32 := rfl
  rw [← Int32.toInt_inj, toInt, Int32.toInt_ofNat', ← Int.bmod_bmod_of_dvd (m := 2 ^ 64) (by decide), wide]
  exact Int.bmod_eq_of_le (by omega) (by omega)

theorem load_rewrites {memory rest : List B} {g : LRSparseGradient F} (ints : w.int.Full) (features : w.feature.Full)
    (done : loadSerialized w memory = .ok (g, rest)) : memory = g.serialize w ++ rest := by
  obtain ⟨version, m₁, first, done⟩ := ok_of_bind done
  obtain ⟨numWeights, m₂, second, done⟩ := ok_of_bind done
  obtain ⟨⟨⟩, m₃, checked, done⟩ := ok_of_bind done
  obtain ⟨weights, m₄, loaded, done⟩ := ok_of_bind done
  cases done
  have few : 0 < numWeights.toInt ∧ numWeights.toInt < maxWeights := by
    by_contra outside
    rw [check_neg outside] at checked
    cases checked
  rw [check_pos few] at checked
  cases checked
  have entries := Rewrites.rounds (loadWeight_rewrites ints features _) loaded
  have length := (rounds_ok (P := fun _ => True) (fun _ _ _ _ _ => trivial) loaded).1
  have count : toInt weights.length = numWeights := by
    have natural : (numWeights.toInt.toNat : Int) = numWeights.toInt := Int.toNat_of_nonneg (Int.le_of_lt few.1)
    rw [length, ← Int32.toInt_inj, toInt_toInt (by unfold maxWeights at few; omega), natural]
  rw [ints.load first, ints.load second, entries, serialize, toInt_loaded, count]
  simp only [List.append_assoc]

/-- Loading undoes storing, whatever the object held, and storing undoes every load that succeeds. -/
theorem codec :
    (∀ (w : Wire B F) (g old : LRSparseGradient F), 0 < g.weights.length → g.weights.length ≤ 9999999 →
      g.version.toNat < 2 ^ 31 →
      (g.serialize w).length = g.getSerializedSize ∧ Decodes (loadInto w old) (g.serialize w) g) ∧
    ∀ (memory rest : List UInt8) (old g : LRSparseGradient UInt32),
      loadInto .littleEndian old memory = .ok (g, rest) → memory = g.serialize .littleEndian ++ rest := by
  constructor
  · intro w g old nonempty few small
    have loads := loadSerialized_serialize w g nonempty (Nat.lt_succ_of_le few)
    rw [received_small small] at loads
    rw [loadInto_eq]
    exact ⟨g.serialize_length w, loads⟩
  · intro memory rest old g done
    rw [loadInto_eq] at done
    exact load_rewrites littleEndian_full.1 littleEndian_full.2 done

theorem codec_repeated :
    let g : LRSparseGradient UInt32 := ⟨[(5, 1), (5, 2)], 7⟩
    (g.serialize .littleEndian).length = 24 ∧
      Decodes (loadInto .littleEndian ⟨[(1, 9), (2, 9), (3, 9)], 40⟩) (g.serialize .littleEndian) g ∧
      loadInto .littleEndian ⟨[], 0⟩ [7, 0, 0, 0, 1, 0, 0, 0, 5, 0, 0, 0, 9, 0, 0, 0, 6] = .ok (⟨[(5, 9)], 7⟩, [6]) ∧
      [7, 0, 0, 0, 1, 0, 0, 0, 5, 0, 0, 0, 9, 0, 0, 0, 6] =
        (⟨[(5, 9)], 7⟩ : LRSparseGradient UInt32).serialize .littleEndian ++ [6] := by
  have stored := codec.1 .littleEndian (⟨[(5, 1), (5, 2)], 7⟩ : LRSparseGradient UInt32)
    ⟨[(1, 9), (2, 9), (3, 9)], 40⟩ (by decide) (by decide) (by decide)
  have loaded : loadInto .littleEndian (⟨[], 0⟩ : LRSparseGradient UInt32)
      [7, 0, 0, 0, 1, 0, 0, 0, 5, 0, 0, 0, 9, 0, 0, 0, 6] = .ok (⟨[(5, 9)], 7⟩, [6]) := by rfl
  exact ⟨stored.1, stored.2, loaded, (@codec UInt8 UInt32).2 _ _ _ _ loaded⟩

end LRSparseGradient
end Gradients

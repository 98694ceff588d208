import Cirrus.SparseObject

/-!
What `pushSamples` and `getNext` access of an object. They take as many rows as
the configuration says, whatever number of rows the object has.
-/
namespace ShortObjects
open Gradients SparseLR SparseObject Decoder
variable {B F : Type}

def packed (w : Wire B F) (size : Int32) (stored : List (Option F × Row F)) : List B :=
  w.int.put size ++ (w.int.put (toInt stored.length) ++ stored.flatMap (putSample w))

section Access
variable [FeatureTests F] (w : Wire B F) (labelled : Bool) (s3Rows minibatchRows : UInt64)

def cut (object : List B) : Except Fault (List (List B)) :=
  if minibatchRows = 0 then .error .undefined
  else (pushSamples w labelled (s3Rows / minibatchRows).toNat minibatchRows.toNat object).map Prod.fst

/-- `getNext` reads `config.get_minibatch_size()` rows and asks for labels by `has_labels`, which all callers set
to `minibatch_rows` and `use_label`: the object is cut, and each of its minibatches read, without a look past its
end, and every minibatch is a part of its rows. -/
def Safe (size : Int32) (stored : List (Option F × Row F)) : Prop :=
  ∃ positions, cut w labelled s3Rows minibatchRows (packed w size stored) = .ok positions ∧
    ∀ data ∈ positions, ∃ part rest, fromMinibatch w labelled minibatchRows.toNat data = .ok (dataset part, rest) ∧
      part <:+: stored ∧ part.length = minibatchRows.toNat

variable {w labelled s3Rows minibatchRows}

theorem skipSample_end (rest : Unit → Decoder B (List Unit)) :
    (skipSample w labelled >>= rest) [] = .error .undefined := by
  cases labelled <;> rfl

theorem skipSamples_inside {stored : List (Option F × Row F)} (good : ∀ s ∈ stored, Good labelled s) {i n : Nat}
    {units : List Unit} {rest : List B}
    (ok : rounds (fun _ => skipSample w labelled) i n (stored.flatMap (putSample w)) = .ok (units, rest)) :
    n ≤ stored.length ∧ rest = (stored.drop n).flatMap (putSample w) := by
  induction n generalizing stored i units with
  | zero =>
    cases ok
    exact ⟨Nat.zero_le _, rfl⟩
  | succ n ih =>
    cases stored with
    | nil =>
      rw [rounds, List.flatMap_nil, skipSample_end] at ok
      cases ok
    | cons s others =>
      rw [List.forall_mem_cons] at good
      rw [rounds, List.flatMap_cons, bind_ok (skipSample_decodes good.1 _)] at ok
      obtain ⟨later, last, walked, ok⟩ := ok_of_bind ok
      cases ok
      obtain ⟨enough, same⟩ := ih good.2 walked
      exact ⟨Nat.succ_le_succ enough, same⟩

theorem walk_inside {rows : Nat} {stored : List (Option F × Row F)} (good : ∀ s ∈ stored, Good labelled s) {i n : Nat}
    {positions : List (List B)} {rest : List B}
    (ok : rounds (fun _ => passMinibatch w labelled rows) i n (stored.flatMap (putSample w)) = .ok (positions, rest)) : n * rows ≤ stored.length := by
  induction n generalizing stored i positions rest with
  | zero => omega
  | succ n ih =>
    obtain ⟨data, mid, first, ok⟩ := ok_of_bind ok
    obtain ⟨later, last, walked, _⟩ := ok_of_bind ok
    obtain ⟨pointer, same, pointed, first⟩ := ok_of_bind first
    cases pointed
    obtain ⟨units, mid', skipped, first⟩ := ok_of_bind first
    cases first
    obtain ⟨enough, rfl⟩ := skipSamples_inside good skipped
    have others := ih (fun s member => good s (List.mem_of_mem_drop member)) walked
    rw [List.length_drop] at others
    rw [Nat.succ_mul]
    omega

theorem walk_enough {rows n : Nat} {stored : List (Option F × Row F)} (good : ∀ s ∈ stored, Good labelled s)
    (enough : n * rows ≤ stored.length) :
    rounds (fun _ => passMinibatch w labelled rows) 0 n (stored.flatMap (putSample w)) =
      .ok ((List.range n).map fun k => (stored.drop (k * rows)).flatMap (putSample w),
        (stored.drop (n * rows)).flatMap (putSample w)) := by
  have whole : stored = stored.take (n * rows) ++ stored.drop (n * rows) := (List.take_append_drop _ stored).symm
  have size : (stored.take (n * rows)).length = n * rows := by rw [List.length_take]; omega
  have found := minibatches_found (w := w) n (fun s member => good s (List.mem_of_mem_take member)) size 0
    ((stored.drop (n * rows)).flatMap (putSample w))
  rw [← List.flatMap_append, ← whole] at found
  rw [found]
  congr 2
  apply List.map_congr_left
  intro k below
  have bound : k * rows ≤ n * rows := Nat.mul_le_mul_right rows (Nat.le_of_lt (List.mem_range.mp below))
  rw [← List.flatMap_append, ← List.drop_append_of_le_length (by omega), ← whole]

theorem cut_packed (size : Int32) (stored : List (Option F × Row F)) (some_rows : minibatchRows ≠ 0) :
    cut w labelled s3Rows minibatchRows (packed w size stored) =
      (rounds (fun _ => passMinibatch w labelled minibatchRows.toNat) 0 (s3Rows / minibatchRows).toNat
        (stored.flatMap (putSample w))).map Prod.fst := by
  unfold cut packed pushSamples
  rw [if_neg some_rows, bind_ok (Codec.load_put w.int _ _), bind_ok (Codec.load_put w.int _ _)]

theorem safe_iff (size : Int32) {stored : List (Option F × Row F)} (good : ∀ s ∈ stored, Good labelled s) :
    Safe w labelled s3Rows minibatchRows size stored ↔
      minibatchRows ≠ 0 ∧ (s3Rows / minibatchRows).toNat * minibatchRows.toNat ≤ stored.length := by
  unfold Safe
  constructor
  · intro ⟨positions, done, _⟩
    have some_rows : minibatchRows ≠ 0 := by
      intro none
      rw [cut, if_pos none] at done
      cases done
    rw [cut_packed size stored some_rows] at done
    refine ⟨some_rows, ?_⟩
    cases walked : rounds (fun _ => passMinibatch w labelled minibatchRows.toNat) 0 (s3Rows / minibatchRows).toNat
        (stored.flatMap (putSample w)) with
    | error fault =>
      rw [walked] at done
      cases done
    | ok result => exact walk_inside good walked
  · intro ⟨some_rows, enough⟩
    have walked := walk_enough (w := w) good enough
    have done : cut w labelled s3Rows minibatchRows (packed w size stored) =
        .ok ((List.range (s3Rows / minibatchRows).toNat).map fun k =>
          (stored.drop (k * minibatchRows.toNat)).flatMap (putSample w)) := by
      rw [cut_packed size stored some_rows, walked, Except.map]
    refine ⟨_, done, ?_⟩
    intro data member
    obtain ⟨k, below, rfl⟩ := List.mem_map.mp member
    have inside : (k + 1) * minibatchRows.toNat ≤ (s3Rows / minibatchRows).toNat * minibatchRows.toNat :=
      Nat.mul_le_mul_right _ (List.mem_range.mp below)
    rw [Nat.succ_mul] at inside
    have count : ((stored.drop (k * minibatchRows.toNat)).take minibatchRows.toNat).length = minibatchRows.toNat := by
      rw [List.length_take, List.length_drop]
      omega
    have read := fromMinibatch_front (w := w) (fun s member => good s (List.mem_of_mem_drop member))
      (show minibatchRows.toNat ≤ (stored.drop (k * minibatchRows.toNat)).length by rw [List.length_drop]; omega)
    exact ⟨_, _, read, (List.take_prefix _ _).isInfix.trans (List.drop_suffix _ _).isInfix, count⟩

end Access

/-- Every object of a sequence is accessed within its rows where each has as many as the configuration says,
counted in whole minibatches. -/
theorem objects_safe_iff [FeatureTests F] (w : Wire B F) (labelled : Bool) (s3Rows minibatchRows : UInt64)
    (objects : List (Int32 × List (Option F × Row F))) (good : ∀ o ∈ objects, ∀ s ∈ o.2, Good labelled s) :
    (∀ o ∈ objects, Safe w labelled s3Rows minibatchRows o.1 o.2) ↔
      ∀ o ∈ objects, minibatchRows ≠ 0 ∧ (s3Rows / minibatchRows).toNat * minibatchRows.toNat ≤ o.2.length := by
  constructor
  · intro safe o member
    exact (safe_iff o.1 (good o member)).mp (safe o member)
  · intro enough o member
    exact (safe_iff o.1 (good o member)).mpr (enough o member)

def twoRows : List (Option UInt32 × Row UInt32) := [(some 0, []), (some 0x3f800000, [(3, 0x3f800000)])]

theorem twoRows_good : ∀ s ∈ twoRows, Good true s := by
  have zero : Good true (some (0 : UInt32), ([] : Row UInt32)) := ⟨rfl, by simp [FeatureTests.isLabel], by decide⟩
  have one : Good true (some (0x3f800000 : UInt32), [((3 : Int32), (0x3f800000 : UInt32))]) :=
    ⟨rfl, by simp [FeatureTests.isLabel], by decide⟩
  exact List.forall_mem_cons.mpr ⟨zero, List.forall_mem_singleton.mpr one⟩

theorem objects_safe_two : (∀ o ∈ [((32 : Int32), twoRows)], Safe Wire.littleEndian true 2 1 o.1 o.2) ↔
    ∀ o ∈ [((32 : Int32), twoRows)], (1 : UInt64) ≠ 0 ∧ ((2 : UInt64) / 1).toNat * (1 : UInt64).toNat ≤ o.2.length :=
  objects_safe_iff Wire.littleEndian true 2 1 [(32, twoRows)] (List.forall_mem_singleton.mpr twoRows_good)

/-- A last object of two rows, where the configuration says four. -/
theorem last_object_overrun : ¬ ∀ o ∈ [((32 : Int32), twoRows)], Safe Wire.littleEndian true 4 2 o.1 o.2 := by
  intro safe
  have here : Safe Wire.littleEndian true 4 2 32 twoRows := safe (32, twoRows) List.mem_cons_self
  have enough := (safe_iff 32 twoRows_good).mp here
  exact absurd enough.2 (by decide)

end ShortObjects

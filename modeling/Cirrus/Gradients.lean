import Cirrus.Lib.Codec
import Mathlib.Data.List.AList

/-!
The two sparse gradients a worker sends, `LRSparseGradient` and
`MFSparseGradient`, and their serialized formats. A `Wire` says how the
machine stores the fixed-size types of the messages; nothing depends on what
the bytes of a value are. `int` is stored as the `uint32_t` with its bits.
-/
namespace Gradients
open Decoder

structure Wire (B F : Type) where
  u32 : Codec B UInt32 4
  u64 : Codec B UInt64 8
  feature : Codec B F 4
  nul : B

variable {B F : Type}

def bits : Int32 ≃ UInt32 where
  toFun := Int32.toUInt32
  invFun := UInt32.toInt32
  left_inv := Int32.toInt32_toUInt32
  right_inv := UInt32.toUInt32_toInt32

def Wire.int (w : Wire B F) : Codec B Int32 4 := w.u32.along bits

/-- The bytes of the machines the system runs on. A `float` is the number that its bits are. -/
def Wire.littleEndian : Wire UInt8 UInt32 where
  u32 := .littleEndian 4 UInt32.toNat UInt32.ofNat (fun _ => UInt32.ofNat_toNat) UInt32.toNat_lt
  u64 := .littleEndian 8 UInt64.toNat UInt64.ofNat (fun _ => UInt64.ofNat_toNat) UInt64.toNat_lt
  feature := .littleEndian 4 UInt32.toNat UInt32.ofNat (fun _ => UInt32.ofNat_toNat) UInt32.toNat_lt
  nul := 0

theorem littleEndian_full : Wire.littleEndian.int.Full ∧ Wire.littleEndian.feature.Full := by
  have word : ∀ n < 256 ^ 4, (UInt32.ofNat n).toNat = n := fun n small => UInt32.toNat_ofNat_of_lt' small
  have words := Codec.littleEndian_full (fun _ => UInt32.ofNat_toNat) UInt32.toNat_lt word
  exact ⟨words.along bits, words⟩

def numFactors : Nat := 10

def magicNumber : UInt32 := 0x1337

/-- The value of `int` that a `size_t` or a `uint64_t` converts to. -/
def toInt (n : Nat) : Int32 := Int32.ofNat n

structure LRSparseGradient (F : Type) where
  weights : List (Int32 × F)
  version : UInt64 := 0
  deriving DecidableEq

namespace LRSparseGradient

def getSerializedSize (g : LRSparseGradient F) : Nat := g.weights.length * (4 + 4) + 4 * 2

/-- Format: version, number of weights, and for each weight its index and its value. -/
def serialize (w : Wire B F) (g : LRSparseGradient F) : List B :=
  w.int.put (toInt g.version.toNat) ++ (w.int.put (toInt g.weights.length) ++
    g.weights.flatMap fun e => w.int.put e.1 ++ w.feature.put e.2)

def maxWeights : Int := 10000000

/-- One turn of the loop. In turn `i` the pointer is `i` pairs past the start of the list. -/
def loadWeight (w : Wire B F) (size i : Nat) : Decoder B (Int32 × F) := do
  check (i * (4 + 4) < size) (.assertion "std::distance(data_begin, (char*)mem) < size")
  let index ← w.int.load
  let value ← w.feature.load
  pure (index, value)

def loadSerialized (w : Wire B F) : Decoder B (LRSparseGradient F) := do
  let version ← w.int.load
  let numWeights ← w.int.load
  check (0 < numWeights.toInt ∧ numWeights.toInt < maxWeights)
    (.assertion "num_weights > 0 && num_weights < 10000000")
  -- below 2^31, since `num_weights` is below 10000000
  let size := numWeights.toInt.toNat * (4 + 4) + 2 * 4
  let weights ← rounds (loadWeight w size) 0 numWeights.toInt.toNat
  pure { weights := weights, version := version.toInt64.toUInt64 }

theorem serialize_length (w : Wire B F) (g : LRSparseGradient F) :
    (g.serialize w).length = g.getSerializedSize := by
  have weights : ∀ l : List (Int32 × F),
      (l.flatMap fun e => w.int.put e.1 ++ w.feature.put e.2).length = l.length * (4 + 4) := by
    intro l
    induction l with
    | nil => rfl
    | cons e rest ih => simp [ih]; omega
  simp [serialize, weights, getSerializedSize]
  omega

theorem toInt_toInt {n : Nat} (small : n < 2 ^ 31) : (toInt n).toInt = n :=
  Int32.toInt_ofNat_of_lt small

theorem loadWeight_decodes (w : Wire B F) {size i : Nat} (inside : i * (4 + 4) < size)
    (e : Int32 × F) : Decodes (loadWeight w size i) (w.int.put e.1 ++ w.feature.put e.2) e :=
  .skip (.check inside _) ((Decodes.load w.int e.1).bind (Decodes.load w.feature e.2).last)

/-- The gradient as the other side has it: only the low half of the version is sent. -/
def received (g : LRSparseGradient F) : LRSparseGradient F :=
  { g with version := (toInt g.version.toNat).toInt64.toUInt64 }

theorem loadSerialized_serialize (w : Wire B F) (g : LRSparseGradient F)
    (some_weight : 0 < g.weights.length) (few : g.weights.length < 10000000) :
    Decodes (loadSerialized w) (g.serialize w) g.received := by
  have count : (toInt g.weights.length).toInt = g.weights.length := toInt_toInt (by omega)
  have rounds_all : (toInt g.weights.length).toInt.toNat = g.weights.length := by
    rw [count]
    exact Int.toNat_natCast _
  apply Decodes.bind (.load w.int _)
  apply Decodes.bind (.load w.int _)
  apply Decodes.skip (.check ?_ _)
  · rw [rounds_all]
    apply Decodes.last
    apply Decodes.rounds 0 g.weights
    exact fun k e below _ => loadWeight_decodes w (by omega) e
  · rw [count, maxWeights]
    omega

theorem loadWeight_within (w : Wire B F) (size i : Nat) : Within (loadWeight w size i) (4 + 4) := by
  rw [← Nat.zero_add (4 + 4)]
  exact (Within.check _ _).bind fun _ =>
    (Within.load w.int).bind fun index => (Within.load w.feature).bind fun value => .pure (index, value)

theorem loadWeight_reads (w : Wire B F) (size i : Nat) (inside : i * (4 + 4) < size) :
    Reads (loadWeight w size i) (4 + 4) := by
  rw [loadWeight, check_pos inside]
  exact (Reads.load w.int).bind fun index => (Reads.load w.feature).bind fun value => .pure (index, value)

end LRSparseGradient

abbrev IdMap (F : Type) := AList fun _ : Int32 => F

structure MFSparseGradient (F : Type) where
  usersBiasGrad : IdMap F := ∅
  itemsBiasGrad : IdMap F := ∅
  usersWeightsGrad : List (Int32 × List F) := []
  itemsWeightsGrad : List (Int32 × List F) := []

namespace MFSparseGradient

def getSerializedSize (g : MFSparseGradient F) : Nat :=
  4 * (2 + 2) + g.usersBiasGrad.entries.length * (4 + 4) + g.itemsBiasGrad.entries.length * (4 + 4) +
    g.usersWeightsGrad.length * (4 + numFactors * 4) + g.itemsWeightsGrad.length * (4 + numFactors * 4)

def putBias (w : Wire B F) (e : Int32 × F) : List B := w.int.put e.1 ++ w.feature.put e.2

def putWeights (w : Wire B F) (e : Int32 × List F) : List B :=
  w.int.put e.1 ++ e.2.flatMap w.feature.put

/-- The pairs of a map in the order in which it is walked. -/
def pairs (m : IdMap F) : List (Int32 × F) := m.entries.map fun e => (e.1, e.2)

def lastMagic : UInt32 := 0x1338

/-- Everything the stores write: biases first, then the weight gradients. -/
def layout (w : Wire B F) (g : MFSparseGradient F) : List B :=
  w.u32.put magicNumber ++ (w.u32.put (UInt32.ofNat (pairs g.usersBiasGrad).length) ++
    (w.u32.put (UInt32.ofNat (pairs g.itemsBiasGrad).length) ++
    ((pairs g.usersBiasGrad).flatMap (putBias w) ++ ((pairs g.itemsBiasGrad).flatMap (putBias w) ++
    (g.usersWeightsGrad.flatMap (putWeights w) ++ (g.itemsWeightsGrad.flatMap (putWeights w) ++
    w.u32.put lastMagic))))))

def serialize (w : Wire B F) (g : MFSparseGradient F) : Except Fault (List B) :=
  if g.usersWeightsGrad.length ≠ g.usersBiasGrad.entries.length then
    .error (.assertion "users_weights_grad.size() == users_bias_grad.size()")
  else if ∃ user ∈ g.usersWeightsGrad, user.2.length ≠ numFactors then
    .error (.assertion "user.second.size() == NUM_FACTORS")
  else if g.itemsWeightsGrad.length ≠ g.itemsBiasGrad.entries.length then
    .error (.assertion "items_weights_grad.size() == items_bias_grad.size()")
  else if ∃ item ∈ g.itemsWeightsGrad, item.2.length ≠ numFactors then
    .error (.assertion "item.second.size() == NUM_FACTORS")
  else
    .ok (layout w g)

def loadBias (w : Wire B F) : Decoder B (Int32 × F) := do
  let id ← w.int.load
  let bias ← w.feature.load
  pure (id, bias)

def loadWeights (w : Wire B F) : Decoder B (Int32 × List F) := do
  let id ← w.int.load
  let weights ← rounds (fun _ => w.feature.load) 0 numFactors
  pure (id, weights)

def insertAll (m : IdMap F) (l : List (Int32 × F)) : IdMap F := l.foldl (fun m e => m.insert e.1 e.2) m

def loadSerialized (w : Wire B F) (g : MFSparseGradient F) : Decoder B (MFSparseGradient F) := do
  let magicValue ← w.u32.load
  check (magicValue = magicNumber) (.assertion "magic_value == MAGIC_NUMBER")
  let usersSize ← w.u32.load
  let itemsSize ← w.u32.load
  let userBiases ← rounds (fun _ => loadBias w) 0 usersSize.toNat
  let itemBiases ← rounds (fun _ => loadBias w) 0 itemsSize.toNat
  let userWeights ← rounds (fun _ => loadWeights w) 0 usersSize.toNat
  let itemWeights ← rounds (fun _ => loadWeights w) 0 itemsSize.toNat
  let magicValue ← w.u32.load
  check (magicValue = lastMagic) (.assertion "magic_value == 0x1338")
  pure
    { usersBiasGrad := insertAll g.usersBiasGrad userBiases
      itemsBiasGrad := insertAll g.itemsBiasGrad itemBiases
      usersWeightsGrad := g.usersWeightsGrad ++ userWeights
      itemsWeightsGrad := g.itemsWeightsGrad ++ itemWeights }

structure Shaped (g : MFSparseGradient F) : Prop where
  users : g.usersWeightsGrad.length = g.usersBiasGrad.entries.length
  items : g.itemsWeightsGrad.length = g.itemsBiasGrad.entries.length
  factors : ∀ e ∈ g.usersWeightsGrad ++ g.itemsWeightsGrad, e.2.length = numFactors

@[simp] theorem pairs_length (m : IdMap F) : (pairs m).length = m.entries.length :=
  List.length_map _

theorem serialize_shaped (w : Wire B F) {g : MFSparseGradient F} (shaped : Shaped g) :
    g.serialize w = .ok (layout w g) := by
  have factors : ∀ l ⊆ g.usersWeightsGrad ++ g.itemsWeightsGrad,
      ¬ ∃ e ∈ l, e.2.length ≠ numFactors := by
    intro l part
    simp only [not_exists, not_and, not_not]
    exact fun e member => shaped.factors e (part member)
  rw [serialize, if_neg (not_not.mpr shaped.users), if_neg (factors _ (List.subset_append_left _ _)),
    if_neg (not_not.mpr shaped.items), if_neg (factors _ (List.subset_append_right _ _))]

theorem flatMap_length_const {α : Type} {f : α → List B} {size : Nat} (l : List α)
    (each : ∀ a ∈ l, (f a).length = size) : (l.flatMap f).length = l.length * size := by
  induction l with
  | nil => simp
  | cons a rest ih =>
    have tail := ih fun b member => each b (List.mem_cons_of_mem a member)
    rw [List.flatMap_cons, List.length_append, each a List.mem_cons_self, tail, List.length_cons,
      Nat.succ_mul, Nat.add_comm]

theorem putWeights_length (w : Wire B F) {e : Int32 × List F} (factors : e.2.length = numFactors) :
    (putWeights w e).length = 4 + numFactors * 4 := by
  rw [putWeights, List.length_append, w.int.put_length,
    flatMap_length_const e.2 fun x _ => w.feature.put_length x, factors]

theorem layout_length (w : Wire B F) {g : MFSparseGradient F} (shaped : Shaped g) :
    (layout w g).length = g.getSerializedSize := by
  have bias : ∀ m : IdMap F, ((pairs m).flatMap (putBias w)).length = m.entries.length * (4 + 4) := by
    intro m
    have each : ∀ e ∈ pairs m, (putBias w e).length = 4 + 4 := fun e _ => by simp [putBias]
    rw [flatMap_length_const (pairs m) each, pairs_length]
  have users := flatMap_length_const g.usersWeightsGrad fun e member =>
    putWeights_length w (shaped.factors e (List.mem_append_left _ member))
  have items := flatMap_length_const g.itemsWeightsGrad fun e member =>
    putWeights_length w (shaped.factors e (List.mem_append_right _ member))
  simp only [layout, List.length_append, Codec.put_length, bias, users, items, getSerializedSize]
  omega

theorem loadBias_decodes (w : Wire B F) (e : Int32 × F) : Decodes (loadBias w) (putBias w e) e :=
  (Decodes.load w.int e.1).bind (Decodes.load w.feature e.2).last

theorem loadWeights_decodes (w : Wire B F) {e : Int32 × List F} (factors : e.2.length = numFactors) :
    Decodes (loadWeights w) (putWeights w e) e := by
  have weights := Decodes.rounds 0 e.2 fun _ x _ _ => Decodes.load w.feature x
  rw [factors] at weights
  exact (Decodes.load w.int e.1).bind weights.last

/-- The gradient as the other side has it: its maps are walked in another order. -/
def received (g : MFSparseGradient F) : MFSparseGradient F :=
  { g with
    usersBiasGrad := insertAll ∅ (pairs g.usersBiasGrad)
    itemsBiasGrad := insertAll ∅ (pairs g.itemsBiasGrad) }

theorem loadSerialized_layout (w : Wire B F) {g : MFSparseGradient F} (shaped : Shaped g)
    (few_users : g.usersBiasGrad.entries.length < 2 ^ 32)
    (few_items : g.itemsBiasGrad.entries.length < 2 ^ 32) :
    Decodes (loadSerialized w {}) (layout w g) g.received := by
  have users : (UInt32.ofNat (pairs g.usersBiasGrad).length).toNat = (pairs g.usersBiasGrad).length :=
    UInt32.toNat_ofNat_of_lt' (by simpa using few_users)
  have items : (UInt32.ofNat (pairs g.itemsBiasGrad).length).toNat = (pairs g.itemsBiasGrad).length :=
    UInt32.toNat_ofNat_of_lt' (by simpa using few_items)
  apply Decodes.bind (.load w.u32 _)
  apply Decodes.skip (.check rfl _)
  apply Decodes.bind (.load w.u32 _)
  apply Decodes.bind (.load w.u32 _)
  rw [users, items]
  apply Decodes.bind (Decodes.rounds 0 _ fun _ e _ _ => loadBias_decodes w e)
  apply Decodes.bind (Decodes.rounds 0 _ fun _ e _ _ => loadBias_decodes w e)
  rw [pairs_length, pairs_length, ← shaped.users, ← shaped.items]
  apply Decodes.bind (Decodes.rounds 0 _ fun _ e _ member =>
    loadWeights_decodes w (shaped.factors e (List.mem_append_left _ member)))
  apply Decodes.bind (Decodes.rounds 0 _ fun _ e _ member =>
    loadWeights_decodes w (shaped.factors e (List.mem_append_right _ member)))
  rw [← List.append_nil (w.u32.put lastMagic)]
  apply Decodes.bind (.load w.u32 _)
  exact .skip (.check rfl _) (.pure _)

theorem loadWeights_factors {w : Wire B F} {memory rest : List B} {e : Int32 × List F}
    (done : loadWeights w memory = .ok (e, rest)) : e.2.length = numFactors := by
  obtain ⟨id, mid, _, done⟩ := ok_of_bind done
  obtain ⟨weights, last, read, done⟩ := ok_of_bind done
  cases done
  exact (rounds_ok (P := fun _ => True) (fun _ _ _ _ _ => trivial) read).1

theorem loadSerialized_factors {w : Wire B F} {memory rest : List B} {g : MFSparseGradient F}
    (done : loadSerialized w {} memory = .ok (g, rest)) :
    ∀ e ∈ g.usersWeightsGrad ++ g.itemsWeightsGrad, e.2.length = numFactors := by
  obtain ⟨_, _, _, done⟩ := ok_of_bind done
  obtain ⟨_, _, _, done⟩ := ok_of_bind done
  obtain ⟨_, _, _, done⟩ := ok_of_bind done
  obtain ⟨_, _, _, done⟩ := ok_of_bind done
  obtain ⟨_, _, _, done⟩ := ok_of_bind done
  obtain ⟨_, _, _, done⟩ := ok_of_bind done
  obtain ⟨userWeights, _, users, done⟩ := ok_of_bind done
  obtain ⟨itemWeights, _, items, done⟩ := ok_of_bind done
  obtain ⟨_, _, _, done⟩ := ok_of_bind done
  obtain ⟨_, _, _, done⟩ := ok_of_bind done
  cases done
  intro e member
  rcases List.mem_append.mp member with user | item
  · exact (rounds_ok (fun _ _ _ _ => loadWeights_factors) users).2 e user
  · exact (rounds_ok (fun _ _ _ _ => loadWeights_factors) items).2 e item

theorem loadBias_within (w : Wire B F) : Within (loadBias w) (4 + 4) :=
  (Within.load w.int).bind fun id => (Within.load w.feature).bind fun bias => .pure (id, bias)

theorem loadWeights_within (w : Wire B F) : Within (loadWeights w) (4 + 4 * numFactors) :=
  (Within.load w.int).bind fun id =>
    (Within.rounds (fun _ => .load w.feature) 0 numFactors).bind fun weights => .pure (id, weights)

theorem loadBias_reads (w : Wire B F) : Reads (loadBias w) (4 + 4) :=
  (Reads.load w.int).bind fun id => (Reads.load w.feature).bind fun bias => .pure (id, bias)

theorem loadWeights_reads (w : Wire B F) : Reads (loadWeights w) (4 + 4 * numFactors) :=
  (Reads.load w.int).bind fun id =>
    (Reads.rounds 0 numFactors fun _ _ => .load w.feature).bind fun weights => .pure (id, weights)

end MFSparseGradient
end Gradients

import Cirrus.SequentialIds
import Cirrus.TrainingRange
import Mathlib.Tactic.Ring

/-!
The counters that tell to which user the first row of a minibatch belongs, beside
the ids of the objects that the minibatches are cut from. The iterator and a
counter begin their rounds independently of each other.
-/
namespace SampleIndex
open Transition TrainingRange SequentialIds Words

section Counters
variable (config : Configuration)

/-- `sample_index` in the `k`-th round of the loop of `MFNetflixTask::run`. -/
def sampleIndex (b : Bounds) : Nat → UInt64
  | 0 => b.sampleIndex
  | k + 1 =>
    let next := sampleIndex b k + config.minibatchSize
    if b.sampleHigh < next + config.minibatchSize then b.sampleLow else next

/-- The ids that `ErrorSparseTask::run` goes through, of which `right` is exclusive. -/
def left : UInt32 := config.trainRange.1.toUInt32

def right : UInt32 := config.trainRange.2.toUInt32

/-- How many minibatches `ErrorSparseTask::run` keeps. -/
def storedMinibatches : UInt32 := (right config - left config) * (config.s3Size / config.minibatchSize).toUInt32

/-- `start_index` at the `j`-th of them. -/
def startIndex : Nat → UInt64
  | 0 => 0
  | j + 1 => startIndex j + config.minibatchSize

end Counters

section Rows
variable (config : Configuration)

def perObject : Nat := (config.s3Size / config.minibatchSize).toNat

/-- An index is the first row of the `k`-th minibatch, whichever object the iterator has cut it from. -/
def FirstRow (leftId rightId : UInt64) (k : Nat) (index : UInt64) : Prop :=
  ∀ s, Reachable (step leftId rightId) AtStart (Orderly leftId rightId) s →
    ∀ id, s.requested[k / perObject config]? = some id →
      index.toNat = config.s3Size.toNat * id.toNat + k % perObject config * config.minibatchSize.toNat

/-- The base user of every round is the first row of its minibatch. -/
def Aligned (b : Bounds) : Prop :=
  ∀ k, FirstRow config (UInt64.ofInt b.l) (UInt64.ofInt b.stop) k (sampleIndex config b k)

/-- So is the first user of every minibatch the loss is computed of. -/
def ErrorsAligned : Prop :=
  ∀ j < (storedMinibatches config).toNat,
    FirstRow config (left config).toUInt64 (right config).toUInt64 j (startIndex config j)

end Rows

section Runs
variable {leftId rightId : UInt64}

theorem asks_next {s : State} (reached : Reachable (step leftId rightId) AtStart (Orderly leftId rightId) s)
    (returned : s.constructor = .returned) (waiting : s.thread = .waiting) (credit : s.prefSem = 1) :
    ∃ t, Reachable (step leftId rightId) AtStart (Orderly leftId rightId) t ∧ t.constructor = .returned ∧
      t.thread = .waiting ∧ t.prefSem = 1 ∧ t.requested.length = s.requested.length + 1 := by
  obtain ⟨constructor, thread, prefSem, current, requested⟩ := s
  obtain rfl : constructor = .returned := returned
  obtain rfl : thread = .waiting := waiting
  obtain rfl : prefSem = 1 := credit
  have move {u v : State} (before : Reachable (step leftId rightId) AtStart (Orderly leftId rightId) u)
      (set : u.constructor = .returned) (taken : runThread leftId rightId u = some v) :
      Reachable (step leftId rightId) AtStart (Orderly leftId rightId) v :=
    .step (l := .thread) before (fun _ => .inl set) taken
  have loading := move (v := ⟨.returned, .loading, 0, current, requested⟩) reached rfl rfl
  have storing := move (v := ⟨.returned, .storing current, 0, current, requested⟩) loading rfl rfl
  have comparing := move (v := ⟨.returned, .comparing current, 0, current + 1, requested⟩) storing rfl rfl
  have requesting : ∃ next, Reachable (step leftId rightId) AtStart (Orderly leftId rightId)
      ⟨.returned, .requesting current, 0, next, requested⟩ := by
    by_cases last : current + 1 = rightId
    · have resetting := move (v := ⟨.returned, .resetting current, 0, current + 1, requested⟩) comparing rfl (by
        simp [runThread, last])
      exact ⟨leftId, move resetting rfl rfl⟩
    · exact ⟨current + 1, move comparing rfl (by simp [runThread, last])⟩
  obtain ⟨next, requesting⟩ := requesting
  have asked := move (v := ⟨.returned, .waiting, 0, next, requested ++ [current]⟩) requesting rfl rfl
  refine ⟨⟨.returned, .waiting, 1, next, requested ++ [current]⟩, .step (l := .getNext) asked trivial rfl,
    rfl, rfl, rfl, ?_⟩
  rw [List.length_append, List.length_singleton]

theorem asks (leftId rightId : UInt64) (n : Nat) :
    ∃ s, Reachable (step leftId rightId) AtStart (Orderly leftId rightId) s ∧ s.constructor = .returned ∧
      s.thread = .waiting ∧ s.prefSem = 1 ∧ s.requested.length = n := by
  induction n with
  | zero =>
    have started : Reachable (step leftId rightId) AtStart (Orderly leftId rightId) {} := .start rfl
    have signalled : Reachable (step leftId rightId) AtStart (Orderly leftId rightId)
        { prefSem := 1, constructor := .starting } := .step (l := .constructor) started nofun rfl
    have created : Reachable (step leftId rightId) AtStart (Orderly leftId rightId)
        { prefSem := 1, constructor := .assigning, thread := .waiting } :=
      .step (l := .constructor) signalled nofun rfl
    exact ⟨{ prefSem := 1, constructor := .returned, thread := .waiting, current := leftId },
      .step (l := .constructor) created (fun _ => .inl ⟨rfl, .inl rfl⟩) rfl, rfl, rfl, rfl, rfl⟩
  | succ n ih =>
    obtain ⟨s, reached, returned, waiting, credit, length⟩ := ih
    rw [← length]
    exact asks_next reached returned waiting credit

variable {config : Configuration}

theorem perObject_mul (config : Configuration) :
    perObject config * config.minibatchSize.toNat = config.s3Size.toNat := by
  rw [perObject, UInt64.toNat_div]
  exact Nat.div_mul_cancel config.multiple

theorem perObject_pos (config : Configuration) : 0 < perObject config := by
  apply Nat.pos_of_ne_zero
  intro none
  have whole := perObject_mul config
  rw [none, Nat.zero_mul] at whole
  exact absurd config.s3SizeLoaded (by omega)

theorem firstRow_iff (ordered : leftId < rightId) (k : Nat) (index : UInt64) :
    FirstRow config leftId rightId k index ↔ index.toNat = leftId.toNat * config.s3Size.toNat +
      k % (perObject config * (rightId.toNat - leftId.toNat)) * config.minibatchSize.toNat := by
  have row : config.s3Size.toNat * (leftId.toNat + k / perObject config % (rightId.toNat - leftId.toNat)) +
      k % perObject config * config.minibatchSize.toNat = leftId.toNat * config.s3Size.toNat +
        k % (perObject config * (rightId.toNat - leftId.toNat)) * config.minibatchSize.toNat := by
    rw [Nat.mod_mul, ← perObject_mul config]
    ring
  rw [← row]
  constructor
  · intro follows
    obtain ⟨s, reached, _, _, _, length⟩ := asks leftId rightId (k / perObject config + 1)
    have there := List.getElem?_eq_getElem (show k / perObject config < s.requested.length by omega)
    have same := (inOrder_of_orderly ordered reached) _ _ there
    rw [follows s reached _ there, same]
  · intro same s reached id there
    rw [same, (inOrder_of_orderly ordered reached) _ _ there]

end Runs

section Rounds
variable {config : Configuration} {b : Bounds}

theorem sampleIndex_succ {k v : Nat} (here : (sampleIndex config b k).toNat = v) :
    (sampleIndex config b (k + 1)).toNat =
      if b.sampleHigh.toNat < (v + 2 * config.minibatchSize.toNat) % 2 ^ 64 then b.sampleLow.toNat
      else (v + config.minibatchSize.toNat) % 2 ^ 64 := by
  have next : (sampleIndex config b k + config.minibatchSize).toNat = (v + config.minibatchSize.toNat) % 2 ^ 64 := by
    rw [UInt64.toNat_add, here]
  have after : (sampleIndex config b k + config.minibatchSize + config.minibatchSize).toNat =
      (v + 2 * config.minibatchSize.toNat) % 2 ^ 64 := by
    rw [UInt64.toNat_add, next, Nat.mod_add_mod, Nat.two_mul, Nat.add_assoc]
  rw [← after, sampleIndex]
  by_cases beyond : b.sampleHigh < sampleIndex config b k + config.minibatchSize + config.minibatchSize
  · rw [if_pos beyond, if_pos (UInt64.lt_iff_toNat_lt.mp beyond)]
  · rw [if_neg beyond, if_neg (fun less => beyond (UInt64.lt_iff_toNat_lt.mpr less)), next]

/-- A counter makes rounds of `n` minibatches when it restarts at the last of them and at no other. -/
theorem rounds_iff (together : b.sampleIndex = b.sampleLow) (first : Nat) {n : Nat} (some_minibatch : 0 < n) :
    (∀ k, (sampleIndex config b k).toNat = first + k % n * config.minibatchSize.toNat) ↔
      b.sampleLow.toNat = first ∧ first + (n - 1) * config.minibatchSize.toNat < 2 ^ 64 ∧
      (∀ k, k + 1 < n → (first + (k + 2) * config.minibatchSize.toNat) % 2 ^ 64 ≤ b.sampleHigh.toNat) ∧
      (b.sampleHigh.toNat < (first + (n + 1) * config.minibatchSize.toNat) % 2 ^ 64 ∨
        n * config.minibatchSize.toNat % 2 ^ 64 = 0) := by
  have positive := config.minibatchSizeLoaded
  have last_mod : (n - 1) % n = n - 1 := Nat.mod_eq_of_lt (by omega)
  have last_mul : (n - 1) * config.minibatchSize.toNat + config.minibatchSize.toNat =
      n * config.minibatchSize.toNat := by
    rw [← Nat.succ_mul, Nat.succ_eq_add_one, Nat.sub_add_cancel some_minibatch]
  constructor
  · intro follows
    have low : b.sampleLow.toNat = first := by
      have zeroth := follows 0
      rwa [Nat.zero_mod, Nat.zero_mul, Nat.add_zero, sampleIndex, together] at zeroth
    have last := follows (n - 1)
    rw [last_mod] at last
    refine ⟨low, ?_, ?_, ?_⟩
    · rw [← last]
      exact UInt64.toNat_lt _
    · intro k inside
      by_contra beyond
      have here := follows k
      rw [Nat.mod_eq_of_lt (by omega)] at here
      have next := follows (k + 1)
      have test : (first + k * config.minibatchSize.toNat + 2 * config.minibatchSize.toNat) =
          first + (k + 2) * config.minibatchSize.toNat := by ring
      rw [sampleIndex_succ here, test, if_pos (by omega), Nat.mod_eq_of_lt inside, low, Nat.succ_mul] at next
      omega
    · have next := follows n
      have test : first + (n - 1) * config.minibatchSize.toNat + 2 * config.minibatchSize.toNat =
          first + (n + 1) * config.minibatchSize.toNat := by
        rw [Nat.succ_mul n]
        omega
      rw [show n = n - 1 + 1 by omega, sampleIndex_succ last, test, show n - 1 + 1 = n by omega, Nat.mod_self] at next
      split at next
      next restarts => exact .inl restarts
      next =>
        have small := b.sampleLow.toNat_lt
        omega
  · intro ⟨low, last, early, restarts⟩ k
    have small := b.sampleLow.toNat_lt
    induction k with
    | zero => rw [sampleIndex, together, low, Nat.zero_mod, Nat.zero_mul, Nat.add_zero]
    | succ k ih =>
      have below := Nat.mod_lt k some_minibatch
      rw [sampleIndex_succ ih, ← Nat.mod_add_mod k n 1]
      have test : first + k % n * config.minibatchSize.toNat + 2 * config.minibatchSize.toNat =
          first + (k % n + 2) * config.minibatchSize.toNat := by ring
      rw [test]
      by_cases inside : k % n + 1 < n
      · have bound : (k % n + 1) * config.minibatchSize.toNat ≤ (n - 1) * config.minibatchSize.toNat :=
          Nat.mul_le_mul_right _ (by omega)
        have beyond := early (k % n) inside
        rw [if_neg (by omega), Nat.mod_eq_of_lt inside, Nat.add_assoc, ← Nat.succ_mul, Nat.mod_eq_of_lt]
        rw [Nat.succ_eq_add_one]
        omega
      · have full : k % n + 1 = n := by omega
        have here : k % n = n - 1 := by omega
        have after : n - 1 + 2 = n + 1 := by omega
        rw [full, Nat.mod_self, Nat.zero_mul, Nat.add_zero, here, after]
        rcases restarts with test | round
        · rw [if_pos test, low]
          rfl
        · split
          next => exact low
          next => omega

end Rounds

section Bounds
variable (config : Configuration)

def firstObject (w : Nat) : Nat := if config.netflixWorkers = 0 then config.first else w * config.share

def lastObject (w : Nat) : Nat :=
  if config.netflixWorkers = 0 then config.second else min (w * config.share + config.share) config.second

structure Given (w : Nat) (b : Bounds) : Prop where
  l : b.l = firstObject config w
  stop : b.stop = (lastObject config w + 1 : Nat)
  small : lastObject config w + 1 < 2 ^ 31
  together : b.sampleIndex = b.sampleLow
  low : b.sampleLow.toNat =
    if config.netflixWorkers = 0 then 0 else firstObject config w * config.s3Size.toNat % 2 ^ 64
  high : b.sampleHigh.toNat = min ((config.second + 1) * config.s3Size.toNat % 2 ^ 64)
    ((lastObject config w + 1) * config.s3Size.toNat % 2 ^ 64)

variable {config}

theorem given_of_bounds (range : config.Forwards) {worker : Int32} {w : Nat} (here : worker.toInt = w) {b : Bounds}
    (given : bounds config worker = some b) : Given config w b := by
  obtain ⟨last, fits⟩ := bounds_defined range given
  have word {n : Nat} (small : n < 2 ^ 31) : (UInt64.ofInt n).toNat = n := toNat_ofInt_nat (by omega)
  by_cases whole : config.netflixWorkers = 0
  · rw [bounds_whole range whole worker last, Option.some.injEq] at given
    obtain rfl := given
    refine ⟨?_, ?_, ?_, rfl, ?_, ?_⟩
    · rw [firstObject, if_pos whole]
    · rw [lastObject, if_pos whole]
      rfl
    · rw [lastObject, if_pos whole]
      exact last
    · rw [if_pos whole]
      rfl
    · rw [lastObject, if_pos whole, Nat.min_self]
      show (config.s3Size * UInt64.ofInt (config.second + 1 : Nat)).toNat = _
      rw [UInt64.toNat_mul, word last, Nat.mul_comm]
  · have fits := fits whole w here
    rw [bounds_shared range whole here last fits, Option.some.injEq] at given
    obtain rfl := given
    refine ⟨?_, ?_, ?_, rfl, ?_, ?_⟩
    · rw [firstObject, if_neg whole]
      simp
    · rw [lastObject, if_neg whole]
      simp
    · rw [lastObject, if_neg whole]
      omega
    · rw [if_neg whole, firstObject, if_neg whole]
      show (UInt64.ofInt (w * config.share : Nat) * config.s3Size).toNat = _
      rw [UInt64.toNat_mul, word (by omega)]
    · rw [lastObject, if_neg whole]
      show (min (config.s3Size * UInt64.ofInt (config.second + 1 : Nat))
          (UInt64.ofInt (min (w * config.share + config.share) config.second + 1 : Nat) * config.s3Size)).toNat = _
      rw [toNat_min, UInt64.toNat_mul, UInt64.toNat_mul, word last, word (by omega), Nat.mul_comm config.s3Size.toNat]

variable (config) in
/-- The counter restarts when the iterator does. A range whose rows have 64-bit numbers up to one minibatch after
its end is enough for it; the rest says what is still right when they have not. -/
def RestartsAtEnd (w : Nat) : Prop :=
  let size := config.minibatchSize.toNat
  let last := (lastObject config w + 1) * config.s3Size.toNat
  let minibatches := perObject config * (lastObject config w + 1 - firstObject config w)
  let bound := (config.second + 1) * config.s3Size.toNat % 2 ^ 64
  last < 2 ^ 64 + size ∧
    (last % 2 ^ 64 + size < 2 ^ 64 ∧
        (minibatches = 1 ∨ last % 2 ^ 64 ≤ bound ∧ (last < 2 ^ 64 ∨ minibatches = 2)) ∨
      minibatches = 1 ∧ bound + 2 ^ 64 < last % 2 ^ 64 + size)

instance (config : Configuration) (w : Nat) : Decidable (RestartsAtEnd config w) :=
  inferInstanceAs (Decidable (_ ∧ _))

theorem tests_iff {first size n : Nat} (bound : Nat) (positive : 0 < size) (word : size < 2 ^ 64) (some_minibatch : 0 < n)
    (start : first = 0 ∨ size ≤ first) :
    (first + (n - 1) * size < 2 ^ 64 ∧
      (∀ k, k + 1 < n → (first + (k + 2) * size) % 2 ^ 64 ≤ min bound ((first + n * size) % 2 ^ 64)) ∧
      (min bound ((first + n * size) % 2 ^ 64) < (first + (n + 1) * size) % 2 ^ 64 ∨ n * size % 2 ^ 64 = 0)) ↔
    first + n * size < 2 ^ 64 + size ∧
      ((first + n * size) % 2 ^ 64 + size < 2 ^ 64 ∧
          (n = 1 ∨ (first + n * size) % 2 ^ 64 ≤ bound ∧ (first + n * size < 2 ^ 64 ∨ n = 2)) ∨
        n = 1 ∧ bound + 2 ^ 64 < (first + n * size) % 2 ^ 64 + size) := by
  have before : (n - 1) * size + size = n * size := by
    rw [← Nat.succ_mul, Nat.succ_eq_add_one, Nat.sub_add_cancel some_minibatch]
  have after : (n + 1) * size = n * size + size := Nat.succ_mul n size
  rw [after]
  constructor
  · intro ⟨last, early, restarts⟩
    refine ⟨by omega, ?_⟩
    by_cases one : n = 1
    · subst one
      omega
    · have final := early (n - 2) (by omega)
      rw [show n - 2 + 2 = n by omega] at final
      refine .inl ⟨by omega, .inr ⟨by omega, ?_⟩⟩
      by_contra neither
      rw [not_or] at neither
      have previous := early (n - 3) (by omega)
      rw [show n - 3 + 2 = n - 1 by omega] at previous
      omega
  · intro ⟨last, ends⟩
    refine ⟨by omega, ?_, by omega⟩
    intro k inside
    have some_rounds : (k + 2) * size ≤ n * size := Nat.mul_le_mul_right _ (by omega)
    rcases ends with ⟨room, one | ⟨reached, small | two⟩⟩ | ⟨one, _⟩
    · omega
    · omega
    · subst two
      obtain rfl : k = 0 := by omega
      omega
    · omega

end Bounds

section Tasks
variable {config : Configuration}

theorem aligned_iff {w : Nat} {b : Bounds} (given : Given config w b) (some_object : b.l < b.stop) :
    Aligned config b ↔ (config.netflixWorkers ≠ 0 ∨ config.first = 0) ∧ RestartsAtEnd config w := by
  have positive := config.minibatchSizeLoaded
  have whole := perObject_mul config
  have objects := perObject_pos config
  have small := given.small
  have some_left : firstObject config w < lastObject config w + 1 := by
    rw [given.l, given.stop] at some_object
    omega
  have leftId : (UInt64.ofInt b.l).toNat = firstObject config w := by rw [given.l, toNat_ofInt_nat (by omega)]
  have rightId : (UInt64.ofInt b.stop).toNat = lastObject config w + 1 := by rw [given.stop, toNat_ofInt_nat (by omega)]
  have ordered : UInt64.ofInt b.l < UInt64.ofInt b.stop := by
    rw [UInt64.lt_iff_toNat_lt, leftId, rightId]
    exact some_left
  have some_minibatch : 0 < perObject config * (lastObject config w + 1 - firstObject config w) :=
    Nat.mul_pos objects (by omega)
  have ends : firstObject config w * config.s3Size.toNat +
      perObject config * (lastObject config w + 1 - firstObject config w) * config.minibatchSize.toNat =
        (lastObject config w + 1) * config.s3Size.toNat := by
    rw [Nat.mul_right_comm, whole, Nat.mul_comm config.s3Size.toNat, ← Nat.add_mul, Nat.add_sub_cancel' (by omega)]
  have start : firstObject config w * config.s3Size.toNat = 0 ∨
      config.minibatchSize.toNat ≤ firstObject config w * config.s3Size.toNat := by
    rcases Nat.eq_zero_or_pos (firstObject config w) with zero | some_first
    · exact .inl (by rw [zero, Nat.zero_mul])
    · have divides := Nat.le_of_dvd config.s3SizeLoaded config.multiple
      exact .inr (Nat.le_trans divides (Nat.le_mul_of_pos_left _ some_first))
  have tests := tests_iff ((config.second + 1) * config.s3Size.toNat % 2 ^ 64) positive
    config.minibatchSize.toNat_lt some_minibatch start
  rw [ends, ← given.high] at tests
  unfold Aligned
  simp only [firstRow_iff ordered, leftId, rightId]
  rw [rounds_iff given.together _ some_minibatch, tests]
  apply and_congr_left
  intro ⟨bounded, _⟩
  rw [given.low]
  by_cases split : config.netflixWorkers = 0
  · rw [if_pos split, firstObject, if_pos split]
    have sized := config.s3SizeLoaded
    constructor
    · intro none
      exact .inr ((Nat.mul_eq_zero.mp none.symm).resolve_right (by omega))
    · intro known
      rw [known.resolve_left (fun other => other split), Nat.zero_mul]
  · rw [if_neg split]
    have enough : config.minibatchSize.toNat ≤
        perObject config * (lastObject config w + 1 - firstObject config w) * config.minibatchSize.toNat :=
      Nat.le_mul_of_pos_left _ some_minibatch
    exact iff_of_true (Nat.mod_eq_of_lt (by omega)) (.inl split)

theorem startIndex_toNat (config : Configuration) (j : Nat) :
    (startIndex config j).toNat = j * config.minibatchSize.toNat % 2 ^ 64 := by
  induction j with
  | zero => simp [startIndex]
  | succ j ih => rw [startIndex, UInt64.toNat_add, ih, Nat.mod_add_mod, Nat.succ_mul]

theorem toUInt32_natural {value : Int32} (natural : 0 ≤ value.toInt) : value.toUInt32.toNat = value.toInt.toNat := by
  have whole : value.toInt = value.toUInt32.toBitVec.toInt := rfl
  rw [whole, BitVec.toInt_eq_toNat_cond] at natural ⊢
  show value.toUInt32.toBitVec.toNat = _
  split at natural <;> omega

theorem left_toNat (range : config.Forwards) : (left config).toNat = config.first :=
  toUInt32_natural range.natural

theorem right_toNat (range : config.Forwards) : (right config).toNat = config.second :=
  toUInt32_natural (Int.le_trans range.natural range.ordered)

theorem storedMinibatches_le (range : config.Forwards) :
    (storedMinibatches config).toNat ≤ perObject config * (config.second - config.first) := by
  have ordered := range.le
  have objects : (right config - left config).toNat = config.second - config.first := by
    rw [UInt32.toNat_sub_of_le _ _ (UInt32.le_iff_toNat_le.mpr (by rw [left_toNat range, right_toNat range]; exact ordered)),
      left_toNat range, right_toNat range]
  rw [storedMinibatches, UInt32.toNat_mul, objects, Nat.mul_comm (perObject config)]
  exact Nat.le_trans (Nat.mod_le _ _) (Nat.mul_le_mul_left _ (Nat.mod_le _ _))

theorem errorsAligned_iff (range : config.Forwards) :
    ErrorsAligned config ↔ storedMinibatches config = 0 ∨
      config.first = 0 ∧ ((storedMinibatches config).toNat - 1) * config.minibatchSize.toNat < 2 ^ 64 := by
  have few := storedMinibatches_le range
  have leftId : (left config).toUInt64.toNat = config.first := by rw [UInt32.toNat_toUInt64, left_toNat range]
  have rightId : (right config).toUInt64.toNat = config.second := by rw [UInt32.toNat_toUInt64, right_toNat range]
  rcases Nat.eq_zero_or_pos (storedMinibatches config).toNat with none | some_minibatch
  · apply iff_of_true
    · intro j inside
      omega
    · exact .inl (UInt32.toNat_inj.mp none)
  · have some_object : config.first < config.second := by
      by_contra empty
      rw [Nat.sub_eq_zero_of_le (by omega), Nat.mul_zero] at few
      omega
    have ordered : (left config).toUInt64 < (right config).toUInt64 := by
      rw [UInt64.lt_iff_toNat_lt, leftId, rightId]
      exact some_object
    have round {j : Nat} (inside : j < (storedMinibatches config).toNat) :
        FirstRow config (left config).toUInt64 (right config).toUInt64 j (startIndex config j) ↔
          j * config.minibatchSize.toNat % 2 ^ 64 =
            config.first * config.s3Size.toNat + j * config.minibatchSize.toNat := by
      rw [firstRow_iff ordered, leftId, rightId, startIndex_toNat, Nat.mod_eq_of_lt (show j < _ by omega)]
    have positive : storedMinibatches config ≠ 0 := by
      intro none
      rw [none] at some_minibatch
      exact absurd some_minibatch (by decide)
    rw [or_iff_right positive]
    constructor
    · intro follows
      have zeroth := (round some_minibatch).mp (follows 0 some_minibatch)
      rw [Nat.zero_mul, Nat.zero_mod, Nat.add_zero] at zeroth
      have sized := config.s3SizeLoaded
      have zero : config.first = 0 := (Nat.mul_eq_zero.mp zeroth.symm).resolve_right (by omega)
      have last := (round (show (storedMinibatches config).toNat - 1 < _ by omega)).mp (follows _ (by omega))
      rw [zero, Nat.zero_mul, Nat.zero_add] at last
      refine ⟨zero, ?_⟩
      rw [← last]
      exact Nat.mod_lt _ (by decide)
    · intro ⟨zero, small⟩ j inside
      have bound : j * config.minibatchSize.toNat ≤
          ((storedMinibatches config).toNat - 1) * config.minibatchSize.toNat := Nat.mul_le_mul_right _ (by omega)
      rw [round inside, zero, Nat.zero_mul, Nat.zero_add, Nat.mod_eq_of_lt (by omega)]

def laterObjects : Configuration where
  trainRange := (1, 2)
  s3Size := 100
  minibatchSize := 20
  s3SizeLoaded := (tenObjects 0).s3SizeLoaded
  minibatchSizeLoaded := (tenObjects 0).minibatchSizeLoaded
  multiple := (tenObjects 0).multiple

end Tasks

end SampleIndex

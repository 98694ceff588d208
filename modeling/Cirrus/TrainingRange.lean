import Cirrus.Lib.Words
import Mathlib.Data.Int.Interval
import Mathlib.Data.Set.Lattice
import Mathlib.Order.Interval.Set.Basic
import Mathlib.Tactic.Linarith

/-!
The bounds a matrix-factorization worker computes before its loop: the ids of
the objects its iterator goes through, and the rows its counter goes through.
An `int` is kept as its value, and an operation on `int`s that leaves the type
has no result.
-/
namespace TrainingRange

def int (value : Int) : Option Int := if -2 ^ 31 ≤ value ∧ value < 2 ^ 31 then some value else none

/-- A `uint64_t` assigned to an `int`. -/
def narrow (value : UInt64) : Int := value.toUInt32.toInt32.toInt

/-- What the tasks read of the configuration. A size that is not loaded, and a
minibatch that does not divide an object, are refused. -/
structure Configuration where
  trainRange : Int32 × Int32
  s3Size : UInt64
  minibatchSize : UInt64
  netflixWorkers : UInt64 := 0
  s3SizeLoaded : 0 < s3Size.toNat
  minibatchSizeLoaded : 0 < minibatchSize.toNat
  multiple : minibatchSize.toNat ∣ s3Size.toNat

/-- The local variables of `MFNetflixTask::run` when its loop starts. -/
structure Bounds where
  l : Int
  r : Int
  stop : Int
  sampleLow : UInt64
  sampleIndex : UInt64
  sampleHigh : UInt64

def bounds (config : Configuration) (worker : Int32) : Option Bounds := do
  let first := config.trainRange.1.toInt
  let second := config.trainRange.2.toInt
  let sampleHigh := config.s3Size * UInt64.ofInt (← int (second + 1))
  if config.netflixWorkers ≠ 0 then
    let quotient := narrow (UInt64.ofInt (← int (second - first)) / config.netflixWorkers)
    let rangeLength ← int (quotient + 1)
    let l ← int (worker.toInt * rangeLength)
    let r := min (← int (l + rangeLength)) second
    let sampleLow := UInt64.ofInt l * config.s3Size
    let stop ← int (r + 1)
    return { l, r, stop, sampleLow, sampleIndex := sampleLow,
             sampleHigh := min sampleHigh (UInt64.ofInt stop * config.s3Size) }
  else
    let stop ← int (second + 1)
    return { l := first, r := second, stop, sampleLow := 0, sampleIndex := 0, sampleHigh }

section Integers

theorem int_some (value : Int) (lower : -2 ^ 31 ≤ value) (upper : value < 2 ^ 31) :
    int value = some value := if_pos ⟨lower, upper⟩

theorem narrow_small {value : UInt64} (small : value.toNat < 2 ^ 31) : narrow value = value.toNat := by
  have low : value.toUInt32 = UInt32.ofNat value.toNat := by
    apply UInt32.toNat_inj.mp
    simp
  unfold narrow
  rw [low, UInt32.toInt32_ofNat', Int32.toInt_ofNat_of_lt small]

end Integers

section Split
variable {config : Configuration}

def Configuration.first (config : Configuration) : Nat := config.trainRange.1.toInt.toNat

def Configuration.second (config : Configuration) : Nat := config.trainRange.2.toInt.toNat

structure Configuration.Forwards (config : Configuration) : Prop where
  natural : 0 ≤ config.trainRange.1.toInt
  ordered : config.trainRange.1.toInt ≤ config.trainRange.2.toInt

def Configuration.share (config : Configuration) : Nat :=
  (config.second - config.first) / config.netflixWorkers.toNat + 1

namespace Configuration.Forwards
variable (range : config.Forwards)

include range in
theorem first_eq : config.trainRange.1.toInt = config.first := (Int.toNat_of_nonneg range.natural).symm

include range in
theorem second_eq : config.trainRange.2.toInt = config.second :=
  (Int.toNat_of_nonneg (Int.le_trans range.natural range.ordered)).symm

include range in
theorem le : config.first ≤ config.second := by
  have ordered := range.ordered
  rw [range.first_eq, range.second_eq] at ordered
  omega

end Configuration.Forwards

theorem share_le (config : Configuration) : config.share ≤ config.second - config.first + 1 := by
  have := Nat.div_le_self (config.second - config.first) config.netflixWorkers.toNat
  unfold Configuration.share
  omega

theorem quotient_eq (small : config.second < 2 ^ 31) :
    narrow (UInt64.ofInt (config.second - config.first : Nat) / config.netflixWorkers) + 1 = config.share := by
  have same : (UInt64.ofInt (config.second - config.first : Nat) / config.netflixWorkers).toNat =
      (config.second - config.first) / config.netflixWorkers.toNat := by
    rw [UInt64.toNat_div, Words.toNat_ofInt_nat (by omega)]
  have bounded := share_le config
  unfold Configuration.share at bounded
  rw [narrow_small (by omega), same]
  simp [Configuration.share]

/-- The bounds of a worker when the configuration splits the range: its share
counts from object zero, and ends at most at the last object. -/
theorem bounds_shared (range : config.Forwards) (split : config.netflixWorkers ≠ 0) {worker : Int32} {w : Nat}
    (here : worker.toInt = w) (last : config.second + 1 < 2 ^ 31)
    (fits : w * config.share + config.share < 2 ^ 31) :
    bounds config worker = some
      { l := w * config.share, r := min (w * config.share + config.share) config.second
        stop := min (w * config.share + config.share) config.second + 1
        sampleLow := UInt64.ofInt (w * config.share : Nat) * config.s3Size
        sampleIndex := UInt64.ofInt (w * config.share : Nat) * config.s3Size
        sampleHigh := min (config.s3Size * UInt64.ofInt (config.second + 1 : Nat))
          (UInt64.ofInt (min (w * config.share + config.share) config.second + 1 : Nat) * config.s3Size) } := by
  have ordered := range.le
  have bounded := share_le config
  have difference : (config.second : Int) - config.first = (config.second - config.first : Nat) := by omega
  have start : (w : Int) * config.share = (w * config.share : Nat) := by simp
  unfold bounds
  simp only [range.first_eq, range.second_eq, here, difference, Option.bind_eq_bind, Option.bind_eq_some_iff]
  refine ⟨_, int_some _ (by omega) (by omega), ?_⟩
  rw [if_pos split]
  simp only [Option.bind_eq_some_iff]
  refine ⟨_, int_some _ (by omega) (by omega), ?_⟩
  rw [quotient_eq (by omega)]
  refine ⟨_, int_some _ (by omega) (by omega), ?_⟩
  rw [start]
  refine ⟨_, int_some _ (by omega) (by omega), _, int_some _ (by omega) (by omega), _,
    int_some _ (by omega) (by omega), ?_⟩
  simp

theorem bounds_whole (range : config.Forwards) (whole : config.netflixWorkers = 0) (worker : Int32)
    (last : config.second + 1 < 2 ^ 31) :
    bounds config worker = some
      { l := config.first, r := config.second, stop := config.second + 1, sampleLow := 0, sampleIndex := 0
        sampleHigh := config.s3Size * UInt64.ofInt (config.second + 1 : Nat) } := by
  unfold bounds
  simp only [range.first_eq, range.second_eq, Option.bind_eq_bind, Option.bind_eq_some_iff]
  refine ⟨_, int_some _ (by omega) (by omega), ?_⟩
  rw [if_neg (by simp [whole])]
  simp only [Option.bind_eq_some_iff]
  refine ⟨_, int_some _ (by omega) (by omega), ?_⟩
  simp

theorem int_gives {value result : Int} (given : int value = some result) : value < 2 ^ 31 := by
  unfold int at given
  split at given
  · omega
  · cases given

theorem bounds_defined (range : config.Forwards) {worker : Int32} {b : Bounds}
    (given : bounds config worker = some b) : config.second + 1 < 2 ^ 31 ∧
      (config.netflixWorkers ≠ 0 → ∀ w : Nat, worker.toInt = w → w * config.share + config.share < 2 ^ 31) := by
  have ordered := range.le
  have difference : (config.second : Int) - config.first = (config.second - config.first : Nat) := by omega
  unfold bounds at given
  simp only [range.first_eq, range.second_eq, difference, Option.bind_eq_bind, Option.bind_eq_some_iff] at given
  obtain ⟨next, last, rest⟩ := given
  have small := int_gives last
  refine ⟨by omega, ?_⟩
  intro split w here
  rw [if_pos split] at rest
  simp only [Option.bind_eq_some_iff] at rest
  obtain ⟨difference, known, share, counted, l, start, stop, after, rest⟩ := rest
  rw [int_some _ (by omega) (by omega), Option.some.injEq] at known
  rw [← known, quotient_eq (by omega), int_some _ (by omega) (by have := share_le config; omega), Option.some.injEq] at counted
  have bound := int_gives after
  have same : l = worker.toInt * share := by
    unfold int at start
    split at start
    · exact (Option.some.inj start).symm
    · cases start
  rw [same, here, ← counted] at bound
  have : ((w * config.share + config.share : Nat) : Int) < 2 ^ 31 := by simpa using bound
  omega

end Split

section Ranges
variable {config : Configuration}

/-- The ids of a worker's iterator; the second one is exclusive. -/
def idRange (config : Configuration) (worker : Int32) : Option (Int × Int) :=
  (bounds config worker).map fun b => (b.l, b.stop)

def objects (range : Int × Int) : Set Int := Set.Ico range.1 range.2

/-- Every worker has its range, and the ranges divide the training objects among the workers. -/
structure Partition (config : Configuration) (ranges : Nat → Int × Int) : Prop where
  given : ∀ w < config.netflixWorkers.toNat,
    ∃ worker : Int32, worker.toInt = w ∧ idRange config worker = some (ranges w)
  disjoint : ∀ v < config.netflixWorkers.toNat, ∀ w < config.netflixWorkers.toNat, v ≠ w →
    Disjoint (objects (ranges v)) (objects (ranges w))
  inside : ∀ w < config.netflixWorkers.toNat,
    objects (ranges w) ⊆ Set.Ico config.trainRange.1.toInt (config.trainRange.2.toInt + 1)
  cover : ∀ id ∈ Set.Ico config.trainRange.1.toInt (config.trainRange.2.toInt + 1),
    ∃ w < config.netflixWorkers.toNat, id ∈ objects (ranges w)

/-- The range of a worker: one object more than its share, unless the objects end before. -/
def sharedRange (config : Configuration) (w : Nat) : Int × Int :=
  (w * config.share, min (w * config.share + config.share) config.second + 1)

theorem idRange_shared (range : config.Forwards) (split : config.netflixWorkers ≠ 0) {worker : Int32} {w : Nat}
    (here : worker.toInt = w) (last : config.second + 1 < 2 ^ 31)
    (fits : w * config.share + config.share < 2 ^ 31) :
    idRange config worker = some (sharedRange config w) := by
  unfold idRange
  rw [bounds_shared range split here last fits]
  rfl

theorem Partition.shared {ranges : Nat → Int × Int} (p : Partition config ranges) (range : config.Forwards)
    {w : Nat} (one : w < config.netflixWorkers.toNat) :
    config.second + 1 < 2 ^ 31 ∧ w < 2 ^ 31 ∧ w * config.share + config.share < 2 ^ 31 ∧
      ranges w = sharedRange config w := by
  have split : config.netflixWorkers ≠ 0 := by
    intro none
    simp [none] at one
  obtain ⟨worker, here, given⟩ := p.given w one
  obtain ⟨b, computed, same⟩ := Option.map_eq_some_iff.mp given
  obtain ⟨last, fits⟩ := bounds_defined range computed
  have fits := fits split w here
  have small := worker.toInt_lt
  rw [idRange_shared range split here last fits, Option.some.injEq] at given
  exact ⟨last, by omega, fits, given.symm⟩

theorem sharedRange_first (config : Configuration) : (0 : Int) ∈ objects (sharedRange config 0) := by
  simp only [objects, sharedRange, Set.mem_Ico]
  omega

theorem share_small {config : Configuration} (several : config.netflixWorkers.toNat ≠ 1)
    (some_worker : 0 < config.netflixWorkers.toNat) (short : config.second < config.share) :
    config.second = 0 := by
  rcases Nat.eq_zero_or_pos config.second with none | positive
  · exact none
  · unfold Configuration.share at short
    have smaller : (config.second - config.first) / config.netflixWorkers.toNat ≤ config.second / 2 :=
      Nat.div_le_div (by omega) (by omega) (by omega)
    omega

def Configuration.Alone (config : Configuration) : Prop :=
  config.netflixWorkers.toNat = 1 ∨ config.trainRange.2.toInt = 0 ∧ config.netflixWorkers.toNat < 2 ^ 31

section Alone
variable (range : config.Forwards) (first : config.first = 0) (alone : config.Alone)

include range first alone in
theorem share_alone : config.share = config.second + 1 := by
  unfold Configuration.share
  rcases alone with one | ⟨empty, _⟩
  · rw [one, Nat.div_one]
    omega
  · rw [range.second_eq] at empty
    rw [show config.second - config.first = 0 by omega, Nat.zero_div]
    omega

include range first alone in
theorem fits_alone (last : config.second + 1 < 2 ^ 31) {w : Nat} (one : w < config.netflixWorkers.toNat) :
    w < 2 ^ 31 ∧ w * config.share + config.share < 2 ^ 31 := by
  rw [share_alone range first alone]
  rcases alone with single | ⟨empty, few⟩
  · obtain rfl : w = 0 := by omega
    omega
  · obtain empty : config.second = 0 := by
      rw [range.second_eq] at empty
      omega
    simp only [empty]
    omega

include range first alone in
theorem sharedRange_beyond {w : Nat} (other : w ≠ 0) : objects (sharedRange config w) = ∅ := by
  have more : 1 * config.share ≤ w * config.share := Nat.mul_le_mul_right _ (by omega)
  have share := share_alone range first alone
  apply Set.Ico_eq_empty
  simp only [sharedRange]
  omega

include range first alone in
theorem sharedRange_whole :
    objects (sharedRange config 0) = Set.Ico config.trainRange.1.toInt (config.trainRange.2.toInt + 1) := by
  have share := share_alone range first alone
  rw [range.first_eq, range.second_eq]
  unfold objects sharedRange
  congr 1 <;> simp only <;> omega

include range first alone in
theorem partition_alone (workers : 0 < config.netflixWorkers.toNat) (last : config.second + 1 < 2 ^ 31) :
    Partition config (sharedRange config) where
  given := by
    intro w one
    have split : config.netflixWorkers ≠ 0 := by
      intro none
      simp [none] at workers
    obtain ⟨small, fits⟩ := fits_alone range first alone last one
    have here : (Int32.ofNat w).toInt = w := Int32.toInt_ofNat_of_lt small
    exact ⟨Int32.ofNat w, here, idRange_shared range split here last fits⟩
  disjoint := by
    intro v _ w _ different
    by_cases zeroth : v = 0
    · rw [sharedRange_beyond range first alone (w := w) (by omega)]
      exact Set.disjoint_empty _
    · rw [sharedRange_beyond range first alone zeroth]
      exact Set.empty_disjoint _
  inside := by
    intro w _
    by_cases zeroth : w = 0
    · rw [zeroth, sharedRange_whole range first alone]
    · rw [sharedRange_beyond range first alone zeroth]
      exact Set.empty_subset _
  cover := by
    intro id inside
    exact ⟨0, workers, by rwa [sharedRange_whole range first alone]⟩

end Alone

theorem Partition.alone {ranges : Nat → Int × Int} (p : Partition config ranges) (range : config.Forwards)
    (workers : 0 < config.netflixWorkers.toNat) : config.Alone := by
  obtain ⟨_, _, _, zeroth⟩ := p.shared range workers
  by_cases one : config.netflixWorkers.toNat = 1
  · exact .inl one
  · obtain ⟨_, _, _, next⟩ := p.shared range (w := 1) (by omega)
    have short : config.second < config.share := by
      apply Nat.lt_of_not_le
      intro long
      have both : (config.share : Int) ∈ objects (ranges 0) ∧ (config.share : Int) ∈ objects (ranges 1) := by
        rw [zeroth, next]
        simp only [objects, sharedRange, Set.mem_Ico]
        omega
      exact Set.disjoint_left.mp (p.disjoint 0 workers 1 (by omega) (by omega)) both.1 both.2
    have empty := share_small one workers short
    obtain ⟨_, _, fits, _⟩ := p.shared range (w := config.netflixWorkers.toNat - 1) (by omega)
    have unit : config.share = 1 := by simp [Configuration.share, empty]
    have second := range.second_eq
    rw [unit] at fits
    exact .inr ⟨by omega, by omega⟩

/-- The last object of a share is the first one of the next share, so the ranges
of a split overlap, and they start at object zero whatever the training range. -/
theorem idRanges_partition_iff (config : Configuration) (range : config.Forwards)
    (workers : 0 < config.netflixWorkers.toNat) :
    (∃ ranges, Partition config ranges) ↔
      config.trainRange.1.toInt = 0 ∧ config.trainRange.2.toInt + 1 < 2 ^ 31 ∧ config.Alone := by
  have first_eq := range.first_eq
  have second_eq := range.second_eq
  constructor
  · rintro ⟨ranges, p⟩
    obtain ⟨last, _, _, zeroth⟩ := p.shared range workers
    have zero : (0 : Int) ∈ objects (ranges 0) := zeroth ▸ sharedRange_first config
    have lower := (p.inside 0 workers zero).1
    exact ⟨by omega, by omega, p.alone range workers⟩
  · rintro ⟨first, last, alone⟩
    exact ⟨_, partition_alone range (by omega) alone workers (by omega)⟩

def tenObjects (workers : UInt64) : Configuration where
  trainRange := (0, 9)
  s3Size := 100
  minibatchSize := 20
  netflixWorkers := workers
  s3SizeLoaded := by decide
  minibatchSizeLoaded := by decide
  multiple := by decide

theorem idRanges_partition_one_worker : ∃ ranges, Partition (tenObjects 1) ranges :=
  (idRanges_partition_iff (tenObjects 1) ⟨by decide, by decide⟩ (by decide)).mpr
    ⟨by decide, by decide, .inl (by decide)⟩

theorem two_workers_overlap : idRange (tenObjects 2) 0 = some (0, 6) ∧ idRange (tenObjects 2) 1 = some (5, 10) ∧
    ¬ ∃ ranges, Partition (tenObjects 2) ranges := by
  have range : (tenObjects 2).Forwards := ⟨by decide, by decide⟩
  refine ⟨by decide, by decide, ?_⟩
  rintro ⟨ranges, p⟩
  rcases p.alone range (by decide) with one | ⟨empty, _⟩
  · exact absurd one (by decide)
  · exact absurd empty (by decide)

end Ranges

end TrainingRange

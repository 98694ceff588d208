import Cirrus.ConfigurationFile
import Cirrus.LambdaData
import Cirrus.Lib.Loops
import Cirrus.Lib.Words
import Mathlib.Data.Rat.Floor
import Mathlib.Algebra.Order.Ring.Rat

/-!
The configuration that a Python task writes, and what `Configuration` reads from
it. Numbers with a point are written with six decimals, so most of them are not
read as what they were.
-/
namespace TaskConfig
open Scan TextStream ConfigurationFile Words
open LambdaData (str)

inductive UpdateRule
  | adagrad
  | nesterov
  | momentum
  | sgd
  deriving DecidableEq

def UpdateRule.name : UpdateRule → Text
  | .adagrad => "adagrad".toList
  | .nesterov => "nesterov".toList
  | .momentum => "momentum".toList
  | .sgd => "sgd".toList

theorem solid_of_all {w : Text} (all : w.all (!isspace ·) = true) : ∀ c ∈ w, isspace c = false := by
  intro c member
  simpa using List.all_eq_true.mp all c member

/-- The name of an S3 bucket, which has no white space. -/
structure Bucket where
  name : Text
  some_name : name ≠ []
  solid : ∀ c ∈ name, isspace c = false

structure Task where
  minibatchSize : Nat
  learningRate : ℚ
  epsilon : ℚ
  optMethod : UpdateRule
  modelBits : Int
  dataset : Bucket
  trainSet : Int × Int
  testSet : Int × Int
  useGradThreshold : Bool
  gradThreshold : ℚ

section Format

/-- The integer nearest to a number; of two, the even one. -/
def roundHalfEven (x : ℚ) : Int :=
  if x - ⌊x⌋ < 1 / 2 then ⌊x⌋
  else if 1 / 2 < x - ⌊x⌋ then ⌊x⌋ + 1
  else if ⌊x⌋ % 2 = 0 then ⌊x⌋
  else ⌊x⌋ + 1

def micros (v : ℚ) : Nat := (roundHalfEven (|v| * 10 ^ 6)).toNat

/-- `%f`, which is also `%lf` -/
def percentF (v : ℚ) : Text :=
  (if v < 0 then ['-'] else []) ++
    (Nat.toDigits 10 (micros v / 10 ^ 6) ++ '.' :: padded 6 (micros v % 10 ^ 6))

def sixDecimals (v : ℚ) : ℚ := (if v < 0 then -1 else 1) * (micros v / 10 ^ 6)

end Format

def lrLines (t : Task) : List Text :=
  let gradT : Nat := if t.useGradThreshold then 1 else 0
  ["load_input_path: /mnt/efs/criteo_kaggle/train.csv ".toList,
   "load_input_type: csv".toList,
   "dataset_format: binary".toList,
   "num_classes: 2 ".toList,
   "num_features: 13 ".toList,
   "limit_cols: 14 ".toList,
   "normalize: 0 ".toList,
   "limit_samples: 10000 ".toList,
   "s3_size: 50000 ".toList,
   "use_bias: 1 ".toList,
   "model_type: LogisticRegression ".toList,
   "minibatch_size:".toList ++ ' ' :: (str t.minibatchSize ++ [' ']),
   "learning_rate:".toList ++ ' ' :: (percentF t.learningRate ++ [' ']),
   "epsilon:".toList ++ ' ' :: (percentF t.epsilon ++ [' ']),
   "model_bits:".toList ++ ' ' :: (str t.modelBits ++ [' ']),
   "s3_bucket:".toList ++ ' ' :: (t.dataset.name ++ [' ']),
   "use_grad_threshold:".toList ++ ' ' :: (str gradT ++ [' ']),
   "grad_threshold:".toList ++ ' ' :: (percentF t.gradThreshold ++ [' ']),
   "train_set:".toList ++ ' ' :: ((str t.trainSet.1 ++ '-' :: str t.trainSet.2) ++ [' ']),
   "test_set:".toList ++ ' ' :: ((str t.testSet.1 ++ '-' :: str t.testSet.2) ++ [])]

def cfLines (t : Task) : List Text :=
  ["input_path: /home/ec2-user/cirrus/examples/ml/tests/test_mf/nf_parsed ".toList,
   "input_type: csv ".toList,
   "minibatch_size:".toList ++ ' ' :: (str t.minibatchSize ++ [' ']),
   "s3_size: 10000 ".toList,
   "model_type: CollaborativeFiltering ".toList,
   "learning_rate:".toList ++ ' ' :: (percentF t.learningRate ++ [' ']),
   "epsilon:".toList ++ ' ' :: (percentF t.epsilon ++ [' ']),
   "normalize: 1 ".toList,
   "limit_samples: 50000000 ".toList,
   "use_bias: 1 ".toList,
   "num_users: 480189 ".toList,
   "num_items: 17770 ".toList,
   "train_set: 0-5 ".toList,
   "s3_bucket: cirrus-netflix-not-normalized".toList]

inductive Kind
  | logisticRegression
  | collaborativeFiltering
  deriving DecidableEq

def Kind.s3Size : Kind → Nat
  | .logisticRegression => 50000
  | .collaborativeFiltering => 10000

def Kind.lines : Kind → Task → List Text
  | .logisticRegression => lrLines
  | .collaborativeFiltering => cfLines

def defineConfig (kind : Kind) (t : Task) : Text := ['\n'].intercalate (kind.lines t)

/-- The configuration has the parameters of the task. -/
structure Has (c : Configuration) (t : Task) : Prop where
  minibatchSize : c.minibatchSize.toNat = t.minibatchSize
  learningRate : c.learningRate = t.learningRate
  epsilon : c.epsilon = t.epsilon
  optMethod : c.optMethod = t.optMethod.name
  modelBits : (c.modelBits.toNat : Int) = t.modelBits
  bucket : c.s3BucketName = t.dataset.name
  trainRange : (c.trainSetRange.1.toInt, c.trainSetRange.2.toInt) = t.trainSet
  testRange : (c.testSetRange.1.toInt, c.testSetRange.2.toInt) = t.testSet
  useGradThreshold : c.useGradThreshold = t.useGradThreshold
  gradThreshold : c.gradThreshold = t.gradThreshold

def Survives (d : Doubles) (kind : Kind) (t : Task) : Prop :=
  ∃ c, Configuration.read d (defineConfig kind t) = .ok c ∧ Has c t

section Reading

def Ends (rest : Text) : Prop := ∀ c ∈ rest.head?, isspace c

theorem extract_here {T : Type} (parse : Text → T × Stream) {text : Text} (some_text : text ≠ [])
    (solid : ∀ c ∈ text.head?, isspace c = false) (old : T) : extract parse ⟨text, false⟩ old = parse text := by
  unfold extract
  simp only [dropWhile_stopped solid]
  obtain ⟨c, tail, rfl⟩ := List.exists_cons_of_ne_nil some_text
  rfl

theorem extract_value {T : Type} (parse : Text → T × Stream) {text : Text} (some_text : text ≠ [])
    (solid : ∀ c ∈ text.head?, isspace c = false) (old : T) : extract parse ⟨' ' :: text, false⟩ old = parse text :=
  extract_here parse some_text solid old

theorem head_of_solid {w rest : Text} (solid : w ≠ [] ∧ ∀ c ∈ w, isspace c = false) :
    w ++ rest ≠ [] ∧ ∀ c ∈ (w ++ rest).head?, isspace c = false := by
  obtain ⟨c, tail, rfl⟩ := List.exists_cons_of_ne_nil solid.1
  exact ⟨by simp, by simpa using solid.2 c List.mem_cons_self⟩

theorem word_here {w rest : Text} (solid : w ≠ [] ∧ ∀ c ∈ w, isspace c = false) (ends : Ends rest) (old : Text) :
    word ⟨w ++ rest, false⟩ old = (w, ⟨rest, false⟩) := by
  have all : ∀ c ∈ w, (!isspace c) = true := fun c member => by simp [solid.2 c member]
  have stops : ∀ c ∈ rest.head?, (!isspace c) = false := fun c head => by simp [ends c head]
  obtain ⟨some_text, first⟩ := head_of_solid solid
  unfold word
  rw [extract_here _ some_text first, takeWhile_token all stops, dropWhile_token all stops]

theorem word_value {w rest : Text} (solid : w ≠ [] ∧ ∀ c ∈ w, isspace c = false) (ends : Ends rest) (old : Text) :
    word ⟨' ' :: (w ++ rest), false⟩ old = (w, ⟨rest, false⟩) := word_here solid ends old

theorem str_solid (n : Int) : str n ≠ [] ∧ ∀ c ∈ str n, isspace c = false := by
  unfold str
  split
  · refine ⟨List.cons_ne_nil _ _, ?_⟩
    rw [List.forall_mem_cons]
    exact ⟨rfl, fun c member => not_space_of_digit (toDigits_digits _ c member)⟩
  · exact ⟨Nat.toDigits_ne_nil, fun c member => not_space_of_digit (toDigits_digits _ c member)⟩

theorem integer_str (n : Int) {rest : Text} (stops : ∀ c ∈ rest.head?, c.isDigit = false) :
    integer (str n ++ rest) = (some n, rest) := by
  unfold str
  split
  next negative =>
    rw [List.cons_append, integer_minus Nat.toDigits_ne_nil (toDigits_digits _) stops, number_toDigits]
    simp only [Prod.mk.injEq, Option.some.injEq, and_true]
    omega
  next =>
    rw [integer_digits Nat.toDigits_ne_nil (toDigits_digits _) stops, number_toDigits]
    simp only [Prod.mk.injEq, Option.some.injEq, and_true]
    omega

theorem Ends.stops {rest : Text} (ends : Ends rest) : ∀ c ∈ rest.head?, c.isDigit = false :=
  fun c head => not_digit_of_space (ends c head)

theorem uint64_str (n : Int) {rest : Text} (ends : Ends rest) (old : UInt64) :
    uint64 ⟨' ' :: (str n ++ rest), false⟩ old =
      if n.natAbs < 2 ^ 64 then (UInt64.ofInt n, ⟨rest, false⟩) else (UInt64.ofInt (-1), ⟨rest, true⟩) := by
  obtain ⟨some_text, solid⟩ := head_of_solid (str_solid n)
  unfold uint64
  rw [extract_value _ some_text solid, integer_str n ends.stops]

theorem percentF_solid (v : ℚ) : percentF v ≠ [] ∧ ∀ c ∈ percentF v, isspace c = false := by
  constructor
  · simp [percentF]
  · intro c member
    simp only [percentF, List.mem_append, List.mem_cons] at member
    rcases member with minus | whole | point | part
    · split at minus
      · rw [List.mem_singleton.mp minus]
        rfl
      · cases minus
    · exact not_space_of_digit (toDigits_digits _ c whole)
    · rw [point]
      rfl
    · exact not_space_of_digit (padded_digits 6 _ c part)

theorem decimal_percentF (v : ℚ) {rest : Text} (ends : Ends rest) :
    decimal (percentF v ++ rest) = (some (sixDecimals v), rest) := by
  have small : micros v % 10 ^ 6 < 10 ^ 6 := Nat.mod_lt _ (by decide)
  have shown : number (Nat.toDigits 10 (micros v / 10 ^ 6) ++ padded 6 (micros v % 10 ^ 6)) = micros v := by
    rw [number_append, number_toDigits, number_padded, padded_length (by decide) small]
    exact Nat.div_add_mod' (micros v) (10 ^ 6)
  have read := decimal_digits (decide (v < 0)) Nat.toDigits_ne_nil (toDigits_digits (micros v / 10 ^ 6))
    (padded_digits 6 (micros v % 10 ^ 6)) ends
  rw [shown, padded_length (by decide) small] at read
  unfold percentF sixDecimals
  simpa using read

theorem double_percentF (d : Doubles) (v : ℚ) {rest : Text} (ends : Ends rest) (old : ℚ) :
    double d ⟨' ' :: (percentF v ++ rest), false⟩ old =
      match d.nearest (sixDecimals v) with
      | some w => (w, ⟨rest, false⟩)
      | none => (if sixDecimals v < 0 then -d.greatest else d.greatest, ⟨rest, true⟩) := by
  obtain ⟨some_text, solid⟩ := head_of_solid (percentF_solid v)
  unfold double
  cases here : d.nearest (sixDecimals v) with
  | none =>
    rw [extract_value _ some_text solid, decimal_percentF v ends]
    simp only [here]
  | some w =>
    rw [extract_value _ some_text solid, decimal_percentF v ends]
    simp only [here]

end Reading

section Options

def reading {T : Type} : Option T → Except Fault T
  | some v => .ok v
  | none => .error (.exception "Error parsing configuration file")

theorem reading_ok {T : Type} {value : Option T} {v : T} : reading value = .ok v ↔ value = some v := by
  cases value with
  | none => exact iff_of_false nofun nofun
  | some w => exact ⟨fun same => congrArg some (Except.ok.inj same), fun same => congrArg Except.ok (Option.some.inj same)⟩

structure IsOption (d : Doubles) (key : Text) (handler : Handler) : Prop where
  found : (options d).find? (·.1 = key) = some (key, handler)
  solid : key ≠ [] ∧ ∀ c ∈ key, isspace c = false
  unmarked : key.head? ≠ some '#'
  text : blank key = false

variable {d : Doubles} {key : Text} {handler : Handler}

theorem option_named (d : Doubles) :
    ∀ o ∈ options d, (o.1 ≠ [] ∧ o.1.all (!isspace ·) = true) ∧ o.1.head? ≠ some '#' ∧ blank o.1 = false := by
  have same : (options d).map (·.1) = (options ⟨fun _ => none, 0⟩).map (·.1) := rfl
  have named : ∀ key ∈ (options ⟨fun _ => none, 0⟩).map (·.1),
      (key ≠ [] ∧ key.all (!isspace ·) = true) ∧ key.head? ≠ some '#' ∧ blank key = false := by decide +kernel
  exact fun o member => named o.1 (same ▸ List.mem_map_of_mem member)

theorem option_at {k : Nat} (here : (options d)[k]? = some (key, handler)) : IsOption d key handler := by
  obtain ⟨⟨some_text, all⟩, unmarked, text⟩ := option_named d _ (List.mem_of_getElem? here)
  exact ⟨find_option here, ⟨some_text, solid_of_all all⟩, unmarked, text⟩

theorem readLine_option (option : IsOption d key handler) (c : Configuration) (rest : Text) :
    readLine d c (key ++ ' ' :: rest) = handler c ⟨' ' :: rest, false⟩ >>= endLine key := by
  have unmarked : (key ++ ' ' :: rest).head? ≠ some '#' := by
    obtain ⟨first, tail, rfl⟩ := List.exists_cons_of_ne_nil option.solid.1
    exact option.unmarked
  unfold readLine parseLine
  rw [if_neg unmarked, word_here option.solid (by simp [Ends, isspace])]
  dsimp only
  rw [option.found]

theorem endLine_failed (text : blank key = false) (c : Configuration) (rest : Text) :
    endLine key (c, ⟨rest, true⟩) = .error (.exception "Error parsing configuration file") := by
  unfold endLine
  rw [if_pos ⟨rfl, by simp [text]⟩]

theorem endLine_read (key : Text) (c : Configuration) (rest : Text) : endLine key (c, ⟨rest, false⟩) = .ok c := by
  unfold endLine
  rw [if_neg (by simp)]

theorem readLine_double {get : Configuration → ℚ} {put : Configuration → ℚ → Configuration}
    (option : IsOption d key (field (double d) get put)) (c : Configuration) (v : ℚ) {rest : Text} (ends : Ends rest) :
    readLine d c (key ++ ' ' :: (percentF v ++ rest)) =
      reading (d.nearest (sixDecimals v)) >>= fun w => .ok (put c w) := by
  rw [readLine_option option, field, double_percentF d v ends]
  cases here : d.nearest (sixDecimals v) with
  | none => exact endLine_failed option.text _ _
  | some w => exact endLine_read key _ _

def toUInt64 (n : Int) : Option UInt64 := if n.natAbs < 2 ^ 64 then some (UInt64.ofInt n) else none

theorem readLine_uint64 {get : Configuration → UInt64} {put : Configuration → UInt64 → Configuration}
    (option : IsOption d key (field uint64 get put)) (c : Configuration) (n : Int) {rest : Text} (ends : Ends rest) :
    readLine d c (key ++ ' ' :: (str n ++ rest)) = reading (toUInt64 n) >>= fun w => .ok (put c w) := by
  rw [readLine_option option, field, uint64_str n ends, toUInt64]
  by_cases fits : n.natAbs < 2 ^ 64
  · rw [if_pos fits, if_pos fits]
    exact endLine_read key _ _
  · rw [if_neg fits, if_neg fits]
    exact endLine_failed option.text _ _

theorem readLine_word {get : Configuration → Text} {put : Configuration → Text → Configuration}
    (option : IsOption d key (field word get put)) (c : Configuration) {w rest : Text}
    (solid : w ≠ [] ∧ ∀ c ∈ w, isspace c = false) (ends : Ends rest) :
    readLine d c (key ++ ' ' :: (w ++ rest)) = .ok (put c w) := by
  rw [readLine_option option, field, word_value solid ends]
  exact endLine_read key _ _

def toPair (range : Int × Int) : Int32 × Int32 :=
  if range.1 < 0 then (0, closest range.1.natAbs) else (closest range.1, closest range.2)

theorem stringToInt_str (n : Int) {rest : Text} (stops : ∀ c ∈ rest.head?, c.isDigit = false) :
    stringToInt (str n ++ rest) = closest n := by
  have heads : str n ++ rest ≠ [] ∧ ∀ c ∈ (str n ++ rest).head?, isspace c = false := head_of_solid (str_solid n)
  obtain ⟨some_text, solid⟩ := heads
  unfold stringToInt int32
  rw [if_neg some_text, extract_here _ some_text solid, integer_str n stops]

theorem toRange_str (range : Int × Int) : toRange (str range.1 ++ '-' :: str range.2) = .ok (toPair range) := by
  have dash : '-' ∈ str range.1 ++ '-' :: str range.2 := by simp
  have right := stringToInt_str range.2 (by simp : ∀ c ∈ ([] : Text).head?, c.isDigit = false)
  rw [List.append_nil] at right
  unfold toRange toPair
  rw [if_pos dash]
  by_cases negative : range.1 < 0
  · -- the first dash is the sign of the first number
    have shape : str range.1 = '-' :: str range.1.natAbs := by
      unfold str
      rw [if_pos negative, if_neg (Int.not_lt.mpr (Int.natCast_nonneg _)), Int.natAbs_natCast]
    have left := stringToInt_str range.1.natAbs (by simp : ∀ c ∈ ('-' :: str range.2).head?, c.isDigit = false)
    rw [if_pos negative, shape, ← left]
    rfl
  · have digits : ∀ c ∈ str range.1, decide (c ≠ '-') = true := by
      intro c member
      rw [str, if_neg negative] at member
      have digit := toDigits_digits _ c member
      apply decide_eq_true
      intro minus
      rw [minus] at digit
      cases digit
    have stops : ∀ c ∈ ('-' :: str range.2).head?, decide (c ≠ '-') = false := by simp
    have left := stringToInt_str range.1 (by simp : ∀ c ∈ ([] : Text).head?, c.isDigit = false)
    rw [List.append_nil] at left
    rw [if_neg negative, takeWhile_token digits stops, dropWhile_token digits stops, List.tail_cons, left, right]

theorem readLine_range {put : Configuration → Int32 × Int32 → Configuration}
    (option : IsOption d key (rangeOption put)) (c : Configuration) (range : Int × Int) {rest : Text} (ends : Ends rest) :
    readLine d c (key ++ ' ' :: ((str range.1 ++ '-' :: str range.2) ++ rest)) = .ok (put c (toPair range)) := by
  have solid : str range.1 ++ '-' :: str range.2 ≠ [] ∧ ∀ c ∈ str range.1 ++ '-' :: str range.2, isspace c = false := by
    refine ⟨by simp, ?_⟩
    rw [List.forall_mem_append, List.forall_mem_cons]
    exact ⟨(str_solid range.1).2, rfl, (str_solid range.2).2⟩
  rw [readLine_option option, rangeOption, word_value solid ends]
  simp only [bind, Except.bind, toRange_str]
  exact endLine_read key _ _

theorem checkMultiple_ok {s3Size : UInt64} {n : Nat} (positive : 0 < n) (small : n < 2 ^ 64) (divides : n ∣ s3Size.toNat) :
    checkMultiple s3Size (UInt64.ofInt n) = .ok () := by
  have some_size : UInt64.ofInt (n : Int) ≠ 0 := by
    intro zero
    have := toNat_ofInt_nat small
    rw [zero] at this
    simp at this
    omega
  have multiple : s3Size % UInt64.ofInt (n : Int) = 0 := by
    apply UInt64.toNat_inj.mp
    rw [UInt64.toNat_mod, toNat_ofInt_nat small]
    exact Nat.mod_eq_zero_of_dvd divides
  unfold checkMultiple require
  rw [if_neg some_size, if_pos multiple]

theorem readLine_minibatchSize (option : IsOption d key minibatchSizeOption) {c : Configuration} (some_size : c.s3Size ≠ 0)
    {n : Nat} (divides : n ∣ c.s3Size.toNat) {rest : Text} (ends : Ends rest) :
    readLine d c (key ++ ' ' :: (str n ++ rest)) = .ok { c with minibatchSize := UInt64.ofInt n } := by
  have size : 0 < c.s3Size.toNat := toNat_pos some_size
  have le := Nat.le_of_dvd size divides
  have small : n < 2 ^ 64 := Nat.lt_of_le_of_lt le c.s3Size.toNat_lt
  have multiple := checkMultiple_ok (Nat.pos_of_dvd_of_pos divides size) small divides
  rw [readLine_option option, minibatchSizeOption, uint64_str n ends, if_pos (by omega)]
  simp only [if_pos some_size, multiple]
  exact endLine_read key _ _

theorem readLine_useGradThreshold (option : IsOption d key useGradThresholdOption) (c : Configuration) (use : Bool)
    {rest : Text} (ends : Ends rest) :
    readLine d c (key ++ ' ' :: (str ((if use then 1 else 0 : Nat) : Int) ++ rest)) =
      .ok { c with useGradThreshold := use } := by
  rw [readLine_option option, useGradThresholdOption, word_value (str_solid _) ends]
  cases use <;> exact endLine_read key _ _

end Options

section Whole
variable (d : Doubles) (t : Task)

def lrBase : Configuration where
  loadInputPath := "/mnt/efs/criteo_kaggle/train.csv".toList
  loadInputType := "csv".toList
  datasetFormat := "binary".toList
  numClasses := 2
  numFeatures := 13
  limitCols := 14
  limitSamples := 10000
  s3Size := 50000
  useBias := true
  modelType := .logisticRegression

theorem lrBase_read : ((lrLines t).take 11).foldlM (readLine d) {} = .ok lrBase := by
  unfold lrLines
  rfl

def lrConfiguration (learningRate epsilon : ℚ) (modelBits : UInt64) (gradThreshold : ℚ) : Configuration :=
  { lrBase with
    minibatchSize := UInt64.ofInt t.minibatchSize
    learningRate
    epsilon
    modelBits
    s3BucketName := t.dataset.name
    useGradThreshold := t.useGradThreshold
    gradThreshold
    trainSetRange := toPair t.trainSet
    testSetRange := toPair t.testSet }

theorem ends_space : Ends [' '] := by simp [Ends, isspace]

theorem ends_nil : Ends [] := by simp [Ends]

theorem foldlM_read {d : Doubles} {c c' : Configuration} {line : Text} (rest : List Text)
    (read : readLine d c line = .ok c') :
    (line :: rest).foldlM (readLine d) c = rest.foldlM (readLine d) c' := by
  rw [List.foldlM_cons, read]
  rfl

theorem foldlM_reading {T : Type} {d : Doubles} {c : Configuration} {line : Text} {value : Option T}
    {put : T → Configuration} (rest : List Text) (read : readLine d c line = reading value >>= fun w => .ok (put w)) :
    (line :: rest).foldlM (readLine d) c = reading value >>= fun w => rest.foldlM (readLine d) (put w) := by
  rw [List.foldlM_cons, read]
  cases value <;> rfl

theorem lrLines_read (divides : t.minibatchSize ∣ Kind.logisticRegression.s3Size) :
    (lrLines t).foldlM (readLine d) {} =
      reading (d.nearest (sixDecimals t.learningRate)) >>= fun learningRate =>
      reading (d.nearest (sixDecimals t.epsilon)) >>= fun epsilon =>
      reading (toUInt64 t.modelBits) >>= fun modelBits =>
      reading (d.nearest (sixDecimals t.gradThreshold)) >>= fun gradThreshold =>
      .ok (lrConfiguration t learningRate epsilon modelBits gradThreshold) := by
  rw [← List.take_append_drop 11 (lrLines t), List.foldlM_append, lrBase_read]
  simp only [lrLines, List.drop_succ_cons, List.drop_zero]
  show List.foldlM (readLine d) lrBase _ = _
  rw [foldlM_read _ (readLine_minibatchSize (option_at (k := 0) rfl) (by decide) divides ends_space),
    foldlM_reading _ (readLine_double (option_at (k := 10) rfl) _ _ ends_space)]
  congr 1
  funext learningRate
  rw [foldlM_reading _ (readLine_double (option_at (k := 8) rfl) _ _ ends_space)]
  congr 1
  funext epsilon
  rw [foldlM_reading _ (readLine_uint64 (option_at (k := 21) rfl) _ _ ends_space)]
  congr 1
  funext modelBits
  rw [foldlM_read _ (readLine_word (option_at (k := 15) rfl) _ ⟨t.dataset.some_name, t.dataset.solid⟩ ends_space),
    foldlM_read _ (readLine_useGradThreshold (option_at (k := 30) rfl) _ _ ends_space),
    foldlM_reading _ (readLine_double (option_at (k := 31) rfl) _ _ ends_space)]
  congr 1
  funext gradThreshold
  rw [foldlM_read _ (readLine_range (option_at (k := 28) rfl) _ _ ends_space),
    foldlM_read _ (readLine_range (option_at (k := 29) rfl) _ _ ends_nil)]
  rfl

theorem newline_of_solid {w : Text} (solid : ∀ c ∈ w, isspace c = false) : '\n' ∉ w := fun member => by
  have := solid '\n' member
  cases this

theorem newline_of_option {key w rest : Text} (key_free : '\n' ∉ key) (solid : ∀ c ∈ w, isspace c = false)
    (rest_free : '\n' ∉ rest) : '\n' ∉ key ++ ' ' :: (w ++ rest) := by
  simp only [List.mem_append, List.mem_cons, not_or]
  exact ⟨key_free, by decide, newline_of_solid solid, rest_free⟩

theorem range_solid (range : Int × Int) : ∀ c ∈ str range.1 ++ '-' :: str range.2, isspace c = false := by
  rw [List.forall_mem_append, List.forall_mem_cons]
  exact ⟨(str_solid range.1).2, rfl, (str_solid range.2).2⟩

theorem lrLines_free : ∀ l ∈ lrLines t, '\n' ∉ l := by
  unfold lrLines
  simp only [List.forall_mem_cons]
  refine ⟨by decide, by decide, by decide, by decide, by decide, by decide, by decide, by decide, by decide, by decide,
    by decide, ?_, ?_, ?_, ?_, ?_, ?_, ?_, ?_, ?_, nofun⟩
  · exact newline_of_option (by decide) (str_solid _).2 (by decide)
  · exact newline_of_option (by decide) (percentF_solid _).2 (by decide)
  · exact newline_of_option (by decide) (percentF_solid _).2 (by decide)
  · exact newline_of_option (by decide) (str_solid _).2 (by decide)
  · exact newline_of_option (by decide) t.dataset.solid (by decide)
  · exact newline_of_option (by decide) (str_solid _).2 (by decide)
  · exact newline_of_option (by decide) (percentF_solid _).2 (by decide)
  · exact newline_of_option (by decide) (range_solid _) (by decide)
  · exact newline_of_option (by decide) (range_solid _) (by decide)

theorem cfLines_free : ∀ l ∈ cfLines t, '\n' ∉ l := by
  unfold cfLines
  simp only [List.forall_mem_cons]
  refine ⟨by decide, by decide, ?_, by decide, by decide, ?_, ?_, by decide, by decide, by decide, by decide, by decide,
    by decide, by decide, nofun⟩
  · exact newline_of_option (by decide) (str_solid _).2 (by decide)
  · exact newline_of_option (by decide) (percentF_solid _).2 (by decide)
  · exact newline_of_option (by decide) (percentF_solid _).2 (by decide)

theorem lrLines_lines : lines (defineConfig .logisticRegression t) = lrLines t := by
  have some_last : ∀ l ∈ (lrLines t).getLast?, l ≠ [] := by simp [lrLines]
  exact lines_intercalate (lrLines_free t) some_last

theorem lrConfiguration_checked {t : Task} (divides : t.minibatchSize ∣ Kind.logisticRegression.s3Size) (learningRate epsilon : ℚ)
    (modelBits : UInt64) (gradThreshold : ℚ) :
    let c := lrConfiguration t learningRate epsilon modelBits gradThreshold
    (c.print = .ok () ↔ learningRate ≠ -1) ∧
    (c.check = .ok () ↔ ¬ (t.useGradThreshold ∧ gradThreshold = 0) ∧ modelBits ≠ 0) := by
  have le : t.minibatchSize ≤ 50000 := Nat.le_of_dvd (by decide) divides
  have positive : 0 < t.minibatchSize := Nat.pos_of_dvd_of_pos divides (by decide)
  have some_size : UInt64.ofInt (t.minibatchSize : Int) ≠ 0 := by
    intro zero
    have same := toNat_ofInt_nat (show t.minibatchSize < 2 ^ 64 by omega)
    rw [zero] at same
    simp at same
    omega
  constructor
  · unfold Configuration.print
    simp only [then_ok, require_ok]
    constructor
    · intro checked
      exact checked.2.2.2
    · intro rate
      exact ⟨(by decide : lrBase.loadInputPath ≠ []), some_size, (by decide : lrBase.s3Size ≠ 0), rate⟩
  · unfold Configuration.check
    simp only [then_ok, require_ok]
    constructor
    · intro checked
      exact ⟨checked.2.2.2.1, checked.2.2.2.2.1⟩
    · intro ⟨threshold, bits⟩
      have format : lrBase.datasetFormat = "binary".toList := rfl
      have model : lrBase.modelType ≠ .collaborativeFiltering := by decide
      have unsaved : ¬ 0 < lrBase.checkpointFrequency := by decide
      exact ⟨t.dataset.some_name, .inr (.inr (.inr format)), fun both => model both.2, threshold, bits, .inl rfl,
        fun saved => unsaved saved.1⟩

theorem lr_read_iff {t : Task} (divides : t.minibatchSize ∣ Kind.logisticRegression.s3Size) (c : Configuration) :
    Configuration.read d (defineConfig .logisticRegression t) = .ok c ↔
      ∃ learningRate epsilon modelBits gradThreshold,
        d.nearest (sixDecimals t.learningRate) = some learningRate ∧ d.nearest (sixDecimals t.epsilon) = some epsilon ∧
        toUInt64 t.modelBits = some modelBits ∧ d.nearest (sixDecimals t.gradThreshold) = some gradThreshold ∧
        learningRate ≠ -1 ∧ ¬ (t.useGradThreshold ∧ gradThreshold = 0) ∧ modelBits ≠ 0 ∧
        c = lrConfiguration t learningRate epsilon modelBits gradThreshold := by
  unfold Configuration.read
  rw [lrLines_lines, lrLines_read d t divides]
  constructor
  · intro done
    obtain ⟨c', read, done⟩ := Loops.ok_of_bind done
    obtain ⟨learningRate, rate, read⟩ := Loops.ok_of_bind read
    obtain ⟨epsilon, eps, read⟩ := Loops.ok_of_bind read
    obtain ⟨modelBits, bits, read⟩ := Loops.ok_of_bind read
    obtain ⟨gradThreshold, threshold, read⟩ := Loops.ok_of_bind read
    obtain ⟨_, printed, done⟩ := Loops.ok_of_bind done
    obtain ⟨_, checked, done⟩ := Loops.ok_of_bind done
    obtain ⟨print, check⟩ := lrConfiguration_checked divides learningRate epsilon modelBits gradThreshold
    cases read
    cases done
    exact ⟨learningRate, epsilon, modelBits, gradThreshold, reading_ok.mp rate, reading_ok.mp eps, reading_ok.mp bits,
      reading_ok.mp threshold, print.mp printed, (check.mp checked).1, (check.mp checked).2, rfl⟩
  · intro ⟨learningRate, epsilon, modelBits, gradThreshold, rate, eps, bits, threshold, rated, used, some_bits, same⟩
    obtain ⟨print, check⟩ := lrConfiguration_checked divides learningRate epsilon modelBits gradThreshold
    rw [rate, eps, bits, threshold, same]
    show (Configuration.print _ >>= fun _ => Configuration.check _ >>= fun _ => _) = _
    rw [Loops.bind_of_ok (print.mpr rated), Loops.bind_of_ok (check.mpr ⟨used, some_bits⟩)]
    rfl

/-- The first option of a `CollaborativeFilteringTask` is none that is known. -/
theorem cf_unread (t : Task) : ∃ what, Configuration.read d (defineConfig .collaborativeFiltering t) = .error (.exception what) := by
  have some_last : ∀ l ∈ (cfLines t).getLast?, l ≠ [] := by simp [cfLines]
  have split : lines (defineConfig .collaborativeFiltering t) = cfLines t := lines_intercalate (cfLines_free t) some_last
  unfold Configuration.read
  rw [split]
  exact ⟨_, rfl⟩

end Whole

section Fitting

theorem toInt_closest (n : Int) : (closest n).toInt = max (-2 ^ 31) (min n (2 ^ 31 - 1)) :=
  Int32.toInt_ofInt_of_le (by omega) (by omega)

structure Fits (range : Int × Int) : Prop where
  first_nonneg : 0 ≤ range.1
  first_small : range.1 < 2 ^ 31
  second_large : -2 ^ 31 ≤ range.2
  second_small : range.2 < 2 ^ 31

theorem toPair_fits (range : Int × Int) :
    ((toPair range).1.toInt, (toPair range).2.toInt) = range ↔ Fits range := by
  obtain ⟨first, second⟩ := range
  unfold toPair
  by_cases negative : first < 0
  · -- the sign is taken for the dash
    rw [if_pos negative]
    constructor
    · intro same
      have zero : (0 : Int) = first := congrArg Prod.fst same
      omega
    · intro fits
      have nonneg : 0 ≤ first := fits.first_nonneg
      omega
  · rw [if_neg negative, toInt_closest, toInt_closest, Prod.mk.injEq]
    constructor
    · intro ⟨left, right⟩
      exact ⟨by omega, by omega, by omega, by omega⟩
    · intro ⟨_, small, large, small'⟩
      simp only at small large small'
      omega

theorem toUInt64_survives (n : Int) :
    (∃ w, toUInt64 n = some w ∧ w ≠ 0 ∧ (w.toNat : Int) = n) ↔ 0 < n ∧ n < 2 ^ 64 := by
  constructor
  · intro ⟨w, read, some_bits, same⟩
    have positive := toNat_pos some_bits
    have small := w.toNat_lt
    omega
  · intro ⟨positive, small⟩
    have value : (UInt64.ofInt n).toNat = n.toNat := by rw [toNat_ofInt, Int.emod_eq_of_lt positive.le small]
    refine ⟨UInt64.ofInt n, if_pos (by omega), ?_, by omega⟩
    intro zero
    rw [zero] at value
    simp at value
    omega

end Fitting

structure Exact (d : Doubles) (t : Task) : Prop where
  learningRate : d.nearest (sixDecimals t.learningRate) = some t.learningRate
  epsilon : d.nearest (sixDecimals t.epsilon) = some t.epsilon
  gradThreshold : d.nearest (sixDecimals t.gradThreshold) = some t.gradThreshold
  modelBits : 0 < t.modelBits ∧ t.modelBits < 2 ^ 64
  trainSet : Fits t.trainSet
  testSet : Fits t.testSet

/-- Only a task of logistic regression with the default update rule and exact numbers survives. -/
theorem config_survives_iff (d : Doubles) (kind : Kind) (t : Task) (divides : t.minibatchSize ∣ kind.s3Size)
    (positive : 0 < t.gradThreshold) :
    Survives d kind t ↔
      kind = .logisticRegression ∧ t.optMethod = .adagrad ∧ t.learningRate ≠ -1 ∧ Exact d t := by
  cases kind with
  | collaborativeFiltering =>
    obtain ⟨what, unread⟩ := cf_unread d t
    constructor
    · intro ⟨c, read, _⟩
      rw [unread] at read
      cases read
    · intro holds
      cases holds.1
  | logisticRegression =>
    constructor
    · intro ⟨c, read, has⟩
      obtain ⟨learningRate, epsilon, modelBits, gradThreshold, rate, eps, bits, threshold, rated, _, some_bits, same⟩ :=
        (lr_read_iff d divides c).mp read
      rw [same] at has
      have rate_same : learningRate = t.learningRate := has.learningRate
      have eps_same : epsilon = t.epsilon := has.epsilon
      have threshold_same : gradThreshold = t.gradThreshold := has.gradThreshold
      have adagrad : UpdateRule.adagrad.name = t.optMethod.name := has.optMethod
      refine ⟨rfl, ?_, rate_same ▸ rated, ?_⟩
      · revert adagrad
        cases t.optMethod <;> decide
      · exact {
          learningRate := rate_same ▸ rate
          epsilon := eps_same ▸ eps
          gradThreshold := threshold_same ▸ threshold
          modelBits := (toUInt64_survives t.modelBits).mp ⟨modelBits, bits, some_bits, has.modelBits⟩
          trainSet := (toPair_fits t.trainSet).mp has.trainRange
          testSet := (toPair_fits t.testSet).mp has.testRange }
    · intro ⟨_, adagrad, rated, exact⟩
      obtain ⟨modelBits, bits, some_bits, bits_same⟩ := (toUInt64_survives t.modelBits).mpr exact.modelBits
      have some_threshold : t.gradThreshold ≠ 0 := positive.ne'
      refine ⟨lrConfiguration t t.learningRate t.epsilon modelBits t.gradThreshold, ?_, ?_⟩
      · exact (lr_read_iff d divides _).mpr ⟨t.learningRate, t.epsilon, modelBits, t.gradThreshold, exact.learningRate,
          exact.epsilon, bits, exact.gradThreshold, rated, fun both => some_threshold both.2, some_bits, rfl⟩
      · have le : t.minibatchSize ≤ 50000 := Nat.le_of_dvd (by decide) divides
        exact {
          minibatchSize := toNat_ofInt_nat (by omega)
          learningRate := rfl
          epsilon := rfl
          optMethod := by rw [adagrad]; rfl
          modelBits := bits_same
          bucket := rfl
          trainRange := (toPair_fits t.trainSet).mpr exact.trainSet
          testRange := (toPair_fits t.testSet).mpr exact.testSet
          useGradThreshold := rfl
          gradThreshold := rfl }

def plain (optMethod : UpdateRule) : Task where
  minibatchSize := 20
  learningRate := 1 / 64
  epsilon := 1 / 8
  optMethod
  modelBits := 19
  dataset := ⟨"criteo".toList, by decide, solid_of_all (by decide)⟩
  trainSet := (0, 799)
  testSet := (800, 850)
  useGradThreshold := false
  gradThreshold := 1 / 64

def exactDoubles : Doubles where
  nearest := some
  greatest := 2 ^ 1024 - 2 ^ 971

theorem plain_exact (optMethod : UpdateRule) : Exact exactDoubles (plain optMethod) where
  learningRate := congrArg some (by decide +kernel : sixDecimals (1 / 64) = 1 / 64)
  epsilon := congrArg some (by decide +kernel : sixDecimals (1 / 8) = 1 / 8)
  gradThreshold := congrArg some (by decide +kernel : sixDecimals (1 / 64) = 1 / 64)
  modelBits := (by decide : 0 < (19 : Int) ∧ (19 : Int) < 2 ^ 64)
  trainSet := (⟨by decide, by decide, by decide, by decide⟩ : Fits (0, 799))
  testSet := (⟨by decide, by decide, by decide, by decide⟩ : Fits (800, 850))

theorem plain_survives : Survives exactDoubles .logisticRegression (plain .adagrad) :=
  (config_survives_iff exactDoubles .logisticRegression (plain .adagrad) (by decide : 20 ∣ 50000)
    (by decide +kernel : (0 : ℚ) < 1 / 64)).mpr
    ⟨rfl, rfl, (by decide +kernel : (1 / 64 : ℚ) ≠ -1), plain_exact .adagrad⟩

/-- The update rule of this task is not in its configuration. -/
theorem sgd_lost : ¬ Survives exactDoubles .logisticRegression (plain .sgd) := by
  intro ⟨c, read, has⟩
  obtain ⟨learningRate, epsilon, modelBits, gradThreshold, _, _, _, _, _, _, _, same⟩ :=
    (lr_read_iff exactDoubles (by decide : 20 ∣ 50000) c).mp read
  rw [same] at has
  exact absurd has.optMethod (by decide : UpdateRule.adagrad.name ≠ UpdateRule.sgd.name)

end TaskConfig

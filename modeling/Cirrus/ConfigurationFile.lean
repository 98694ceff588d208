import Cirrus.Lib.Codec
import Cirrus.Lib.Scan
import Cirrus.Lib.TextStream
import Mathlib.Data.List.Nodup

/-!
`Configuration`: a file of options, one a line, the checks that are made while it
is read, and those made when all of it is read.
-/
namespace ConfigurationFile
open Scan TextStream

abbrev Text := List Char

inductive ModelType
  | unknown
  | logisticRegression
  | softmax
  | collaborativeFiltering
  deriving DecidableEq

structure Configuration where
  nWorkers : UInt64 := 0
  minibatchSize : UInt64 := 0
  s3Size : UInt64 := 0
  learningRate : ℚ := -1
  epsilon : ℚ := -1
  numClasses : UInt64 := 0
  loadInputPath : Text := []
  loadInputType : Text := []
  samplesPath : Text := []
  labelsPath : Text := []
  modelType : ModelType := .unknown
  limitCols : UInt64 := 0
  normalize : Bool := false
  limitSamples : UInt64 := 0
  numFeatures : UInt64 := 0
  datasetFormat : Text := []
  s3DatasetKey : Text := []
  s3BucketName : Text := []
  trainSetRange : Int32 × Int32 := (0, 0)
  testSetRange : Int32 × Int32 := (0, 0)
  useBias : Bool := false
  nusers : Int32 := 0
  nitems : Int32 := 0
  useGradThreshold : Bool := false
  gradThreshold : ℚ := 0
  optMethod : Text := "adagrad".toList
  modelBits : UInt64 := 20
  netflixWorkers : UInt64 := 0
  checkpointFrequency : UInt64 := 0
  checkpointS3Bucket : Text := []
  checkpointS3Keyname : Text := []
  momentumBeta : ℚ := 0
  deriving DecidableEq

def require (ok : Prop) [Decidable ok] (what : String) : Except Fault Unit :=
  if ok then .ok () else .error (.exception what)

theorem require_ok {ok : Prop} [Decidable ok] {what : String} : require ok what = .ok () ↔ ok := by
  unfold require
  split
  next holds => exact iff_of_true rfl holds
  next fails => exact iff_of_false nofun fails

theorem then_ok {check rest : Except Fault Unit} : (check >>= fun _ => rest) = .ok () ↔ check = .ok () ∧ rest = .ok () := by
  cases check with
  | error fault => exact iff_of_false nofun (fun both => nomatch both.1)
  | ok _ => exact (and_iff_right rfl).symm

/-- What is done with the rest of a line once its option is known. -/
abbrev Handler := Configuration → Stream → Except Fault (Configuration × Stream)

def field {T : Type} (read : Stream → T → T × Stream) (get : Configuration → T) (put : Configuration → T → Configuration) :
    Handler := fun c iss =>
  let (value, iss) := read iss (get c)
  .ok (put c value, iss)

/-- `s3_size % minibatch_size`, which is undefined for a minibatch of no rows. -/
def checkMultiple (s3Size minibatchSize : UInt64) : Except Fault Unit :=
  if minibatchSize = 0 then .error .undefined
  else require (s3Size % minibatchSize = 0) "s3_size not multiple of minibatch_size"

def minibatchSizeOption : Handler := fun c iss => do
  let (minibatchSize, iss) := uint64 iss c.minibatchSize
  if c.s3Size ≠ 0 then checkMultiple c.s3Size minibatchSize
  pure ({ c with minibatchSize }, iss)

def s3SizeOption : Handler := fun c iss => do
  let (s3Size, iss) := uint64 iss c.s3Size
  if c.minibatchSize ≠ 0 then checkMultiple s3Size c.minibatchSize
  pure ({ c with s3Size }, iss)

def normalizeOption : Handler := fun c iss =>
  let (n, iss) := int32 iss 0
  .ok ({ c with normalize := n = 1 }, iss)

def modelTypeOption : Handler := fun c iss => do
  let (model, iss) := word iss []
  if model = "LogisticRegression".toList then pure ({ c with modelType := .logisticRegression }, iss)
  else if model = "Softmax".toList then pure ({ c with modelType := .softmax }, iss)
  else if model = "CollaborativeFiltering".toList then pure ({ c with modelType := .collaborativeFiltering }, iss)
  else .error (.exception ("Unknown model : " ++ String.ofList model))

/-- `string_to` at `int` -/
def stringToInt (s : Text) : Int32 := if s = [] then 0 else (int32 ⟨s, false⟩ 0).1

/-- `string_to` at `bool` -/
def stringToBool (s : Text) : Bool := if s = [] then false else (bool ⟨s, false⟩ false).1

def toRange (range : Text) : Except Fault (Int32 × Int32) :=
  if '-' ∈ range then .ok (stringToInt (range.takeWhile (· ≠ '-')), stringToInt (range.dropWhile (· ≠ '-')).tail)
  else .error (.exception "Wrong index")

def rangeOption (put : Configuration → Int32 × Int32 → Configuration) : Handler := fun c iss => do
  let (range, iss) := word iss []
  let range ← toRange range
  pure (put c range, iss)

def useGradThresholdOption : Handler := fun c iss => do
  let (b, iss) := word iss []
  require (b = ['0'] ∨ b = ['1']) "use_grad_threshold must be 0/1"
  pure ({ c with useGradThreshold := stringToBool b }, iss)

def options (d : Doubles) : List (Text × Handler) :=
  [("minibatch_size:".toList, minibatchSizeOption),
   ("s3_size:".toList, s3SizeOption),
   ("num_features:".toList, field uint64 (·.numFeatures) fun c v => { c with numFeatures := v }),
   ("load_input_path:".toList, field word (·.loadInputPath) fun c v => { c with loadInputPath := v }),
   ("samples_path:".toList, field word (·.samplesPath) fun c v => { c with samplesPath := v }),
   ("labels_path:".toList, field word (·.labelsPath) fun c v => { c with labelsPath := v }),
   ("n_workers:".toList, field uint64 (·.nWorkers) fun c v => { c with nWorkers := v }),
   ("opt_method:".toList, field word (·.optMethod) fun c v => { c with optMethod := v }),
   ("epsilon:".toList, field (double d) (·.epsilon) fun c v => { c with epsilon := v }),
   ("load_input_type:".toList, field word (·.loadInputType) fun c v => { c with loadInputType := v }),
   ("learning_rate:".toList, field (double d) (·.learningRate) fun c v => { c with learningRate := v }),
   ("num_classes:".toList, field uint64 (·.numClasses) fun c v => { c with numClasses := v }),
   ("limit_cols:".toList, field uint64 (·.limitCols) fun c v => { c with limitCols := v }),
   ("limit_samples:".toList, field uint64 (·.limitSamples) fun c v => { c with limitSamples := v }),
   ("momentum_beta:".toList, field (double d) (·.momentumBeta) fun c v => { c with momentumBeta := v }),
   ("s3_bucket:".toList, field word (·.s3BucketName) fun c v => { c with s3BucketName := v }),
   ("dataset_format:".toList, field word (·.datasetFormat) fun c v => { c with datasetFormat := v }),
   ("s3_dataset_key:".toList, field word (·.s3DatasetKey) fun c v => { c with s3DatasetKey := v }),
   ("use_bias:".toList, field bool (·.useBias) fun c v => { c with useBias := v }),
   ("num_users:".toList, field int32 (·.nusers) fun c v => { c with nusers := v }),
   ("num_items:".toList, field int32 (·.nitems) fun c v => { c with nitems := v }),
   ("model_bits:".toList, field uint64 (·.modelBits) fun c v => { c with modelBits := v }),
   ("netflix_workers:".toList, field uint64 (·.netflixWorkers) fun c v => { c with netflixWorkers := v }),
   ("checkpoint_frequency:".toList, field uint64 (·.checkpointFrequency) fun c v => { c with checkpointFrequency := v }),
   ("checkpoint_s3_bucket:".toList, field word (·.checkpointS3Bucket) fun c v => { c with checkpointS3Bucket := v }),
   ("checkpoint_s3_keyname:".toList, field word (·.checkpointS3Keyname) fun c v => { c with checkpointS3Keyname := v }),
   ("normalize:".toList, normalizeOption),
   ("model_type:".toList, modelTypeOption),
   ("train_set:".toList, rangeOption fun c v => { c with trainSetRange := v }),
   ("test_set:".toList, rangeOption fun c v => { c with testSetRange := v }),
   ("use_grad_threshold:".toList, useGradThresholdOption),
   ("grad_threshold:".toList, field (double d) (·.gradThreshold) fun c v => { c with gradThreshold := v })]

theorem options_nodup (d : Doubles) : ((options d).map (·.1)).Nodup := by
  have same : (options d).map (·.1) = (options ⟨fun _ => none, 0⟩).map (·.1) := rfl
  rw [same]
  decide +kernel

theorem find_option {d : Doubles} {key : Text} {handler : Handler} {place : Nat}
    (here : (options d)[place]? = some (key, handler)) : (options d).find? (·.1 = key) = some (key, handler) := by
  have member := List.mem_of_getElem? here
  cases first : (options d).find? (·.1 = key) with
  | none =>
    have absent := List.find?_eq_none.mp first _ member
    simp at absent
  | some o =>
    have named : o.1 = key := by simpa using List.find?_some first
    exact congrArg some (List.inj_on_of_nodup_map (options_nodup d) (List.mem_of_find?_eq_some first) member named)

def blank (s : Text) : Bool := s.all fun c => c = '\t' || c = '\n' || c = '\x0b' || c = '\x0c' || c = '\r'

/-- The end of `parse_line` -/
def endLine (s : Text) (read : Configuration × Stream) : Except Fault Configuration :=
  if read.2.fail ∧ ¬ blank s then .error (.exception "Error parsing configuration file") else .ok read.1

def parseLine (d : Doubles) (c : Configuration) (line : Text) : Except Fault Configuration := do
  let (s, iss) := word ⟨line, false⟩ []
  match (options d).find? (·.1 = s) with
  | some (_, handler) => handler c iss >>= endLine s
  | none =>
    if blank s then endLine s (c, iss) else .error (.exception ("Unrecognized option: " ++ String.ofList line))

/-- The getters that `print` calls and that throw. -/
def Configuration.print (c : Configuration) : Except Fault Unit := do
  require (c.loadInputPath ≠ []) "input path not loaded"
  require (c.minibatchSize ≠ 0) "Minibatch size not loaded"
  require (c.s3Size ≠ 0) "Minibatch size not loaded"
  require (c.learningRate ≠ -1) "learning rate not loaded"

def Configuration.check (c : Configuration) : Except Fault Unit := do
  require (c.s3BucketName ≠ []) "S3 bucket name missing from config file"
  require (c.datasetFormat = "csv".toList ∨ c.datasetFormat = "libsvm".toList ∨ c.datasetFormat = "svmlight".toList ∨
    c.datasetFormat = "binary".toList) "Unknown dataset format"
  require (¬ (c.testSetRange.1 ≠ 0 ∧ c.modelType = .collaborativeFiltering))
    "Can't use test range with COLLABORATIVE_FILTERING"
  require (¬ (c.useGradThreshold ∧ c.gradThreshold = 0)) "Can't use a 0 for grad threshold"
  require (c.modelBits ≠ 0) "Model bits can't be 0"
  require (c.optMethod = "adagrad".toList ∨ c.optMethod = "nesterov".toList ∨ c.optMethod = "momentum".toList ∨
    c.optMethod = "sgd".toList) "Choose a valid update rule: adagrad, nesterov, momentum, or sgd"
  require (¬ (0 < c.checkpointFrequency ∧ (c.checkpointS3Bucket = [] ∨ c.checkpointS3Keyname = [])))
    "Wrong checkpoing configuration parameters"

def readLine (d : Doubles) (c : Configuration) (line : Text) : Except Fault Configuration :=
  if line.head? = some '#' then .ok c else parseLine d c line

/-- `read` of a file with this text -/
def Configuration.read (d : Doubles) (text : Text) : Except Fault Configuration := do
  let c ← (lines text).foldlM (readLine d) {}
  c.print
  c.check
  pure c

end ConfigurationFile

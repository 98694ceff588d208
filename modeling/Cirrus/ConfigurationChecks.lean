import Cirrus.ConfigurationFile
import Cirrus.Lib.Loops
import Cirrus.Lib.Words

/-!
What the checks of a configuration file come to: those that are made when a line
with one of the two sizes is parsed, and those made once the file is read.
-/
namespace ConfigurationFile
open Scan TextStream Loops Words

/-- The option that a line names, and what the line holds after it. -/
def key (line : Text) : Text := (word ⟨line, false⟩ []).1

def value (line : Text) : Stream := (word ⟨line, false⟩ []).2

/-- The fields that `check` does not look at. -/
structure Watched where
  minibatchSize : UInt64
  s3Size : UInt64
  loadInputPath : Text
  learningRate : ℚ

def Configuration.watched (c : Configuration) : Watched :=
  ⟨c.minibatchSize, c.s3Size, c.loadInputPath, c.learningRate⟩

def Thrown (fault : Fault) : Prop := ∃ what, fault = .exception what

/-- An option that leaves these fields alone, and goes wrong by an exception only. -/
def Plain (h : Handler) : Prop :=
  ∀ c iss, Settles (fun r => r.1.watched = c.watched) Thrown (h c iss)

section Handlers

theorem plain_field {T : Type} {read : Stream → T → T × Stream} {get : Configuration → T}
    {put : Configuration → T → Configuration} (same : ∀ c v, (put c v).watched = c.watched) :
    Plain (field read get put) :=
  fun c _ => .ok (same c _)

theorem plain_normalize : Plain normalizeOption := fun _ _ => .ok rfl

theorem plain_modelType : Plain modelTypeOption := by
  intro c iss
  unfold modelTypeOption
  dsimp only
  split
  · exact .ok rfl
  · split
    · exact .ok rfl
    · split
      · exact .ok rfl
      · exact .error ⟨_, rfl⟩

theorem plain_range {put : Configuration → Int32 × Int32 → Configuration} (same : ∀ c v, (put c v).watched = c.watched) :
    Plain (rangeOption put) := by
  intro c iss
  unfold rangeOption toRange
  dsimp only
  split
  · exact .ok (same c _)
  · exact .error ⟨_, rfl⟩

theorem require_settles (ok : Prop) [Decidable ok] (what : String) : Settles (fun _ => ok) Thrown (require ok what) := by
  unfold require
  split
  next holds => exact .ok holds
  next => exact .error ⟨what, rfl⟩

theorem plain_useGradThreshold : Plain useGradThresholdOption := by
  intro c iss
  unfold useGradThresholdOption
  exact (require_settles _ _).bind fun _ _ => .ok rfl

end Handlers

def watchedKeys : List Text :=
  ["minibatch_size:".toList, "s3_size:".toList, "load_input_path:".toList, "learning_rate:".toList]

theorem plain_options (d : Doubles) : ∀ o ∈ options d, o.1 ∉ watchedKeys → Plain o.2 := by
  have kept {T : Type} {read : Stream → T → T × Stream} {get : Configuration → T}
      {put : Configuration → T → Configuration} {key : Text} (same : ∀ c v, (put c v).watched = c.watched) :
      key ∉ watchedKeys → Plain (field read get put) := fun _ => plain_field same
  have set {h : Handler} {key : Text} (member : key ∈ watchedKeys) : key ∉ watchedKeys → Plain h :=
    fun other => absurd member other
  unfold options
  simp only [List.forall_mem_cons]
  refine ⟨set (.head _), set (.tail _ (.head _)), kept fun _ _ => rfl, set (.tail _ (.tail _ (.head _))),
    kept fun _ _ => rfl, kept fun _ _ => rfl, kept fun _ _ => rfl, kept fun _ _ => rfl, kept fun _ _ => rfl,
    kept fun _ _ => rfl, set (.tail _ (.tail _ (.tail _ (.head _)))), kept fun _ _ => rfl, kept fun _ _ => rfl,
    kept fun _ _ => rfl, kept fun _ _ => rfl, kept fun _ _ => rfl, kept fun _ _ => rfl, kept fun _ _ => rfl,
    kept fun _ _ => rfl, kept fun _ _ => rfl, kept fun _ _ => rfl, kept fun _ _ => rfl, kept fun _ _ => rfl,
    kept fun _ _ => rfl, kept fun _ _ => rfl, kept fun _ _ => rfl, fun _ => plain_normalize, fun _ => plain_modelType,
    fun _ => plain_range fun _ _ => rfl, fun _ => plain_range fun _ _ => rfl, fun _ => plain_useGradThreshold,
    kept fun _ _ => rfl, nofun⟩

section Lines
variable {d : Doubles} {c : Configuration} {line : Text}

/-- The remainder that is computed for this line is one by 0. -/
def DividesByZero (c : Configuration) (line : Text) : Prop :=
  key line = "minibatch_size:".toList ∧ c.s3Size ≠ 0 ∧ (uint64 (value line) c.minibatchSize).1 = 0

instance : Decidable (DividesByZero c line) := inferInstanceAs (Decidable (_ ∧ _ ∧ _))

inductive Effect (c : Configuration) (line : Text) (w : Watched) : Prop
  | minibatchSize (named : key line = "minibatch_size:".toList)
      (multiple : c.s3Size ≠ 0 → c.s3Size % w.minibatchSize = 0)
      (same : w = { c.watched with minibatchSize := w.minibatchSize })
  | s3Size (named : key line = "s3_size:".toList) (multiple : c.minibatchSize ≠ 0 → w.s3Size % c.minibatchSize = 0)
      (same : w = { c.watched with s3Size := w.s3Size })
  | loadInputPath (named : key line = "load_input_path:".toList)
      (same : w = { c.watched with loadInputPath := w.loadInputPath })
  | learningRate (named : key line = "learning_rate:".toList)
      (same : w = { c.watched with learningRate := w.learningRate })
  | other (same : w = c.watched)

theorem endLine_settles (s : Text) (read : Configuration × Stream) :
    Settles (fun c => c = read.1) Thrown (endLine s read) := by
  unfold endLine
  split
  · exact .error ⟨_, rfl⟩
  · exact .ok rfl

theorem parseLine_option {h : Handler} (found : (options d).find? (·.1 = key line) = some (key line, h)) :
    parseLine d c line = h c (value line) >>= endLine (key line) := by
  unfold key at found
  unfold parseLine
  dsimp only
  rw [found]
  rfl

theorem Settles.endLine {h : Handler} (found : (options d).find? (·.1 = key line) = some (key line, h))
    {P : Watched → Prop} (done : Settles (fun r => P r.1.watched) Thrown (h c (value line))) :
    Settles (fun c' => P c'.watched) Thrown (parseLine d c line) := by
  rw [parseLine_option found]
  refine done.bind fun r state => ?_
  have ended := endLine_settles (key line) r
  cases last : ConfigurationFile.endLine (key line) r with
  | error fault =>
    rw [last] at ended
    cases ended with
    | error cause => exact .error cause
  | ok c' =>
    rw [last] at ended
    cases ended with
    | ok same => exact .ok (same ▸ state)

theorem parseLine_other (other : key line ∉ watchedKeys) :
    Settles (fun c' => c'.watched = c.watched) Thrown (parseLine d c line) := by
  cases found : (options d).find? (·.1 = key line) with
  | some o =>
    have named : o.1 = key line := by simpa using List.find?_some found
    have member := List.mem_of_find?_eq_some found
    obtain ⟨k, h⟩ := o
    dsimp only at named
    subst named
    exact Settles.endLine (P := fun w => w = c.watched) found (plain_options d _ member other c (value line))
  | none =>
    unfold key at found
    unfold parseLine
    dsimp only
    rw [found]
    dsimp only
    split
    · exact (endLine_settles _ _).mono fun c' same => same ▸ rfl
    · exact .error ⟨_, rfl⟩

theorem parseLine_minibatchSize (named : key line = "minibatch_size:".toList) (defined : ¬ DividesByZero c line) :
    Settles (fun c' => Effect c line c'.watched) Thrown (parseLine d c line) := by
  have found : (options d).find? (·.1 = key line) = some (key line, minibatchSizeOption) := by
    rw [named]
    rfl
  apply Settles.endLine found
  unfold minibatchSizeOption
  dsimp only
  by_cases none : c.s3Size = 0
  · rw [if_neg (not_not.mpr none)]
    exact .ok (.minibatchSize named (fun some_size => absurd none some_size) rfl)
  · have some_rows : (uint64 (value line) c.minibatchSize).1 ≠ 0 := fun zero => defined ⟨named, none, zero⟩
    rw [if_pos none, checkMultiple, if_neg some_rows]
    exact (require_settles _ _).bind fun _ multiple => .ok (.minibatchSize named (fun _ => multiple) rfl)

theorem parseLine_s3Size (named : key line = "s3_size:".toList) :
    Settles (fun c' => Effect c line c'.watched) Thrown (parseLine d c line) := by
  have found : (options d).find? (·.1 = key line) = some (key line, s3SizeOption) := by
    rw [named]
    rfl
  apply Settles.endLine found
  unfold s3SizeOption
  dsimp only
  by_cases none : c.minibatchSize = 0
  · rw [if_neg (not_not.mpr none)]
    exact .ok (.s3Size named (fun some_rows => absurd none some_rows) rfl)
  · rw [if_pos none, checkMultiple, if_neg none]
    exact (require_settles _ _).bind fun _ multiple => .ok (.s3Size named (fun _ => multiple) rfl)

theorem parseLine_effect (defined : ¬ DividesByZero c line) :
    Settles (fun c' => Effect c line c'.watched) Thrown (parseLine d c line) := by
  by_cases member : key line ∈ watchedKeys
  · simp only [watchedKeys, List.mem_cons, List.not_mem_nil, or_false] at member
    rcases member with rows | size | path | rate
    · exact parseLine_minibatchSize rows defined
    · exact parseLine_s3Size size
    · apply Settles.endLine (h := field word (·.loadInputPath) fun c v => { c with loadInputPath := v })
      · rw [path]
        rfl
      · exact .ok (.loadInputPath path rfl)
    · apply Settles.endLine (h := field (double d) (·.learningRate) fun c v => { c with learningRate := v })
      · rw [rate]
        rfl
      · exact .ok (.learningRate rate rfl)
  · exact (parseLine_other member).mono fun _ same => .other same

theorem parseLine_undefined (zero : DividesByZero c line) : parseLine d c line = .error .undefined := by
  obtain ⟨named, some_size, none⟩ := zero
  have found : (options d).find? (·.1 = key line) = some (key line, minibatchSizeOption) := by
    rw [named]
    rfl
  rw [parseLine_option found, minibatchSizeOption]
  dsimp only
  rw [if_pos some_size, none, checkMultiple, if_pos rfl]
  rfl

end Lines

section Faults
variable {d : Doubles}

def NeverByZero (d : Doubles) (c : Configuration) (ls : List Text) : Prop :=
  ∀ seen line rest, ls = seen ++ line :: rest → ∀ c', seen.foldlM (parseLine d) c = .ok c' → ¬ DividesByZero c' line

theorem parse_thrown_iff (c : Configuration) (ls : List Text) :
    (∀ fault, ls.foldlM (parseLine d) c = .error fault → Thrown fault) ↔ NeverByZero d c ls := by
  constructor
  · intro thrown seen line rest split c' before zero
    obtain ⟨what, same⟩ := thrown .undefined (foldlM_error_iff.mpr ⟨seen, line, rest, c', split, before, parseLine_undefined zero⟩)
    cases same
  · intro never fault failed
    obtain ⟨seen, line, rest, c', split, before, stop⟩ := foldlM_error_iff.mp failed
    have settled := parseLine_effect (d := d) (never seen line rest split c' before)
    rw [stop] at settled
    cases settled with
    | error cause => exact cause

def parsedLines (text : Text) : List Text := (lines text).filter fun line => line.head? ≠ some '#'

theorem read_lines (ls : List Text) (c : Configuration) :
    ls.foldlM (readLine d) c = (ls.filter fun line => line.head? ≠ some '#').foldlM (parseLine d) c := by
  induction ls generalizing c with
  | nil => rfl
  | cons line ls ih =>
    rw [List.foldlM_cons, readLine]
    by_cases comment : line.head? = some '#'
    · rw [if_pos comment, List.filter_cons_of_neg (by simp [comment])]
      exact ih c
    · rw [if_neg comment, List.filter_cons_of_pos (by simp [comment]), List.foldlM_cons]
      congr 1
      exact funext ih

theorem print_settles (c : Configuration) : Settles (fun _ => True) Thrown c.print := by
  unfold Configuration.print
  refine (require_settles _ _).bind fun _ _ => ?_
  refine (require_settles _ _).bind fun _ _ => ?_
  refine (require_settles _ _).bind fun _ _ => ?_
  exact (require_settles _ _).mono fun _ _ => trivial

theorem check_settles (c : Configuration) : Settles (fun _ => True) Thrown c.check := by
  unfold Configuration.check
  refine (require_settles _ _).bind fun _ _ => ?_
  refine (require_settles _ _).bind fun _ _ => ?_
  refine (require_settles _ _).bind fun _ _ => ?_
  refine (require_settles _ _).bind fun _ _ => ?_
  refine (require_settles _ _).bind fun _ _ => ?_
  refine (require_settles _ _).bind fun _ _ => ?_
  exact (require_settles _ _).mono fun _ _ => trivial

/-- Lines, and the lines of a file, go wrong by an exception only, exactly if no remainder by 0 is computed for
one of them: none is a line of a minibatch size that reads as 0 when there is an object size. -/
theorem parse_never_divides_by_zero_iff (d : Doubles) :
    (∀ c ls, (∀ fault, ls.foldlM (parseLine d) c = .error fault → Thrown fault) ↔ NeverByZero d c ls) ∧
    ∀ text, (∀ fault, Configuration.read d text = .error fault → Thrown fault) ↔ NeverByZero d {} (parsedLines text) := by
  refine ⟨parse_thrown_iff, fun text => (Iff.trans ?_ (parse_thrown_iff {} (parsedLines text)))⟩
  unfold Configuration.read
  rw [read_lines, ← parsedLines]
  cases parsed : (parsedLines text).foldlM (parseLine d) {} with
  | error fault =>
    constructor
    · intro thrown fault' same
      exact thrown fault' (Except.error.inj same ▸ rfl)
    · intro thrown fault' same
      exact thrown fault' (Except.error.inj same ▸ rfl)
  | ok c =>
    refine iff_of_true ?_ nofun
    intro fault failed
    have settled : Settles (fun _ => True) Thrown (c.print >>= fun _ => c.check >>= fun _ => .ok c) :=
      (print_settles c).bind fun _ _ => (check_settles c).bind fun _ _ => .ok trivial
    change (c.print >>= fun _ => c.check >>= fun _ => .ok c) = .error fault at failed
    rw [failed] at settled
    cases settled with
    | error cause => exact cause

theorem malformed_size_divides_by_zero :
    ¬ ∀ (d : Doubles) (ls : List Text) (fault : Fault), ls.foldlM (parseLine d) {} = .error fault → Thrown fault := by
  intro always
  obtain ⟨what, same⟩ := always ⟨some, 0⟩ ["s3_size: 100".toList, "minibatch_size: ten".toList] .undefined rfl
  cases same

end Faults

section Consistency
variable {d : Doubles} {c : Configuration}

def Given (option : String) (ls : List Text) : Prop := ∃ line ∈ ls, key line = option.toList

structure Parsed (seen : List Text) (w : Watched) : Prop where
  multiple : w.minibatchSize ≠ 0 → w.s3Size ≠ 0 → w.s3Size % w.minibatchSize = 0
  path : w.loadInputPath ≠ [] → Given "load_input_path:" seen
  rate : w.learningRate ≠ -1 → Given "learning_rate:" seen

theorem Given.mono {option : String} {seen : List Text} (given : Given option seen) (line : Text) :
    Given option (seen ++ [line]) := by
  obtain ⟨l, member, named⟩ := given
  exact ⟨l, List.mem_append_left _ member, named⟩

theorem given_here {option : String} {line : Text} (named : key line = option.toList) (seen : List Text) :
    Given option (seen ++ [line]) :=
  ⟨line, List.mem_append_right _ List.mem_cons_self, named⟩

theorem parsed_line {seen : List Text} {line : Text} {w : Watched} (parsed : Parsed seen c.watched)
    (effect : Effect c line w) : Parsed (seen ++ [line]) w := by
  have path := fun given => (parsed.path given).mono line
  have rate := fun given => (parsed.rate given).mono line
  cases effect with
  | minibatchSize named multiple same =>
    rw [same]
    exact ⟨fun _ some_size => multiple some_size, path, rate⟩
  | s3Size named multiple same =>
    rw [same]
    exact ⟨fun some_rows _ => multiple some_rows, path, rate⟩
  | loadInputPath named same =>
    rw [same]
    exact ⟨parsed.multiple, fun _ => given_here named seen, rate⟩
  | learningRate named same =>
    rw [same]
    exact ⟨parsed.multiple, path, fun _ => given_here named seen⟩
  | other same =>
    rw [same]
    exact ⟨parsed.multiple, path, rate⟩

theorem parsed_lines {ls : List Text} (done : ls.foldlM (parseLine d) {} = .ok c) : Parsed ls c.watched := by
  refine foldlM_ends (P := fun seen c => Parsed seen c.watched) ?_ ?_ done
  · intro seen line _ before after parsed one
    have defined : ¬ DividesByZero before line := by
      intro zero
      rw [parseLine_undefined zero] at one
      cases one
    have settled := parseLine_effect (d := d) defined
    rw [one] at settled
    cases settled with
    | ok effect => exact parsed_line parsed effect
  · exact ⟨fun some_rows => absurd rfl some_rows, fun some_path => absurd rfl some_path, fun some_rate => absurd rfl some_rate⟩

structure Consistent (c : Configuration) : Prop where
  rows : 0 < c.minibatchSize.toNat
  size : 0 < c.s3Size.toNat
  multiple : c.minibatchSize.toNat ∣ c.s3Size.toNat
  minibatches : 0 < (c.s3Size / c.minibatchSize).toNat ∧
    (c.s3Size / c.minibatchSize).toNat * c.minibatchSize.toNat = c.s3Size.toNat
  path : c.loadInputPath ≠ []
  rate : c.learningRate ≠ -1
  bits : 0 < c.modelBits.toNat
  rule : c.optMethod ∈ ["adagrad".toList, "nesterov".toList, "momentum".toList, "sgd".toList]
  threshold : c.useGradThreshold → c.gradThreshold ≠ 0

/-- A file that is read without an exception gives a consistent configuration, whatever the order of its lines. -/
theorem read_consistent {text : Text} (done : Configuration.read d text = .ok c) :
    Consistent c ∧ Given "load_input_path:" (parsedLines text) ∧ Given "learning_rate:" (parsedLines text) := by
  unfold Configuration.read at done
  rw [read_lines] at done
  obtain ⟨c', read, done⟩ := ok_of_bind done
  obtain ⟨⟨⟩, printed, done⟩ := ok_of_bind done
  obtain ⟨⟨⟩, checked, done⟩ := ok_of_bind done
  obtain rfl := Except.ok.inj done
  have parsed := parsed_lines read
  unfold Configuration.print at printed
  unfold Configuration.check at checked
  simp only [then_ok, require_ok] at printed checked
  obtain ⟨path, rows, size, rate⟩ := printed
  obtain ⟨_, _, _, threshold, bits, rule, _⟩ := checked
  have remainder : c'.s3Size.toNat % c'.minibatchSize.toNat = 0 := by
    have zero := congrArg UInt64.toNat (parsed.multiple rows size)
    rwa [UInt64.toNat_mod] at zero
  have multiple : c'.minibatchSize.toNat ∣ c'.s3Size.toNat := Nat.dvd_of_mod_eq_zero remainder
  refine ⟨⟨toNat_pos rows, toNat_pos size, multiple, ?_, path, rate, toNat_pos bits, ?_, ?_⟩, parsed.path path, parsed.rate rate⟩
  · rw [UInt64.toNat_div]
    exact ⟨Nat.div_pos (Nat.le_of_dvd (toNat_pos size) multiple) (toNat_pos rows), Nat.div_mul_cancel multiple⟩
  · simp only [List.mem_cons, List.not_mem_nil, or_false]
    exact rule
  · intro used zero
    exact threshold ⟨used, zero⟩

def repeated : Text :=
  "s3_size: 4\nlearning_rate: 1\nminibatch_size: 2\nload_input_path: in\ns3_bucket: b\ndataset_format: csv\ns3_size: 6\n".toList

theorem repeated_consistent : ∃ c, Configuration.read ⟨some, 0⟩ repeated = .ok c ∧ Consistent c ∧
    Given "load_input_path:" (parsedLines repeated) ∧ Given "learning_rate:" (parsedLines repeated) := by
  have returns : (Configuration.read ⟨some, 0⟩ repeated).isOk = true := by decide +kernel
  cases read : Configuration.read ⟨some, 0⟩ repeated with
  | ok c => exact ⟨c, rfl, read_consistent read⟩
  | error fault =>
    rw [read] at returns
    cases returns

end Consistency

end ConfigurationFile

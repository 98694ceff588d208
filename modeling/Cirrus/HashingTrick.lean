import Cirrus.ConfigurationFile
import Cirrus.LineBuffers
import Cirrus.Lib.Loops
import Cirrus.Lib.Tally

/-!
The two parsers of Criteo lines that hash the columns of a line. They differ in
the columns that they hash, in where they find the label, and in the bias.
-/
namespace HashingTrick
open ConfigurationFile LineBuffers Strsep Tally
open CsvReader (tokens maxStrSize)

structure Functions (F : Type) where
  hashF : List Char → UInt64
  stringTo : List Char → F

/-- The variables of the loop over the columns. -/
structure Columns (F : Type) where
  col : Nat := 0
  label : F
  features : Std.TreeMap UInt64 Int32 := {}

section Parsers
variable {F : Type} [DecidableEq F] [Zero F] [One F] [IntCast F] (f : Functions F) (config : Configuration)

def hashSize : UInt64 := 1 <<< config.modelBits

/-- `features[hash]++` -/
def Functions.count (features : Std.TreeMap UInt64 Int32) (l : List Char) : Std.TreeMap UInt64 Int32 :=
  bump features (f.hashF l % hashSize config)

def outputFeatures (features : Std.TreeMap UInt64 Int32) : List (Int32 × F) :=
  (features.toList.filter fun feat => feat.2 ≠ 0).map fun feat => (Int32.ofNat feat.1.toNat, (feat.2.toInt : F))

/-- `strncpy` and the loop over `strsep`: the tokens that are visited in a buffer that held `str`. -/
def visited (delimiter str line : List Char) : Except Fault (List (List Char)) :=
  if maxStrSize < line.length then
    .error (.exception ("Criteo input line is too big: " ++ toString line.length ++ " " ++ toString maxStrSize))
  else
    match loop (cString delimiter) (fun _ => false) 0 (copied (maxStrSize - 1) line str) with
    | none => .error .undefined
    | some columns => .ok columns

def Functions.criteoColumn (s : Columns F) (l : List Char) : Columns F :=
  let s :=
    if s.col = 0 then { s with label := f.stringTo l }
    else if 14 ≤ s.col then { s with features := f.count config s.features l }
    else s
  { s with col := s.col + 1 }

def Functions.parseCriteoSparseLine (delimiter str line : List Char) (label : F) : Except Fault (List (Int32 × F) × F) := do
  let columns ← visited delimiter str line
  let s := columns.foldl (f.criteoColumn config) { label }
  pure (outputFeatures s.features, s.label)

def Functions.criteoKaggleColumn (s : Columns F) (l : List Char) : Except Fault (Columns F) := do
  let s ←
    if s.col = 0 then .ok s
    else if s.col = 1 then
      if f.stringTo l = 0 ∨ f.stringTo l = 1 then .ok { s with label := f.stringTo l }
      else .error (.assertion "label == 0.0 || label == 1.0")
    else .ok { s with features := f.count config s.features l }
  pure { s with col := s.col + 1 }

def Functions.parseCriteoKaggleSparseLine (delimiter str line : List Char) (label : F) :
    Except Fault (List (Int32 × F) × F) := do
  let columns ← visited delimiter str line
  let s ← columns.foldlM (f.criteoKaggleColumn config) { label }
  let features := if config.useBias then f.count config s.features "bias".toList else s.features
  pure (outputFeatures features, s.label)

def Functions.index (l : List Char) : Nat := (f.hashF l).toNat % 2 ^ config.modelBits.toNat

def Functions.amount (hashed : List (List Char)) (index : Int32) : Nat :=
  hashed.countP fun l => (f.index config l : Int) = index.toInt

/-- Every hashed token is counted at its index, and nothing else is. -/
structure Functions.Conserves (hashed : List (List Char)) (features : List (Int32 × F)) : Prop where
  increasing : features.Pairwise fun a b => a.1.toInt < b.1.toInt
  inside : ∀ e ∈ features, 0 ≤ e.1.toInt ∧ e.1.toInt < 2 ^ config.modelBits.toNat
  values : ∀ e ∈ features, 0 < f.amount config hashed e.1 ∧ e.2 = ((f.amount config hashed e.1 : Int) : F)
  total : (features.map fun e => f.amount config hashed e.1).sum = hashed.length

/-- The columns of a line: two delimiters in a row have an empty one between them. -/
structure Splits (delimiter : Char) (text : List Char) (columns : List (List Char)) : Prop where
  some_column : columns ≠ []
  joined : [delimiter].intercalate columns = text
  free : ∀ column ∈ columns, delimiter ∉ column

section Counts
variable {config}

omit [DecidableEq F] [Zero F] [One F] [IntCast F]

theorem key_toNat (bits : config.modelBits.toNat ≤ 30) (l : List Char) :
    (f.hashF l % hashSize config).toNat = f.index config l := by
  have size : (hashSize config).toNat = 2 ^ config.modelBits.toNat := by
    have small : 2 ^ config.modelBits.toNat < 2 ^ 64 := Nat.pow_lt_pow_right (by decide) (by omega)
    rw [hashSize, UInt64.toNat_shiftLeft, Nat.mod_eq_of_lt (show config.modelBits.toNat < 64 by omega),
      UInt64.toNat_one, Nat.one_shiftLeft, Nat.mod_eq_of_lt small]
  rw [UInt64.toNat_mod, size, Functions.index]

theorem amount_key (bits : config.modelBits.toNat ≤ 30) (hashed : List (List Char)) {k : UInt64} (small : k.toNat < 2 ^ 31) :
    f.amount config hashed (Int32.ofNat k.toNat) = (hashed.map fun l => f.hashF l % hashSize config).count k := by
  rw [Functions.amount, List.count_eq_countP, List.countP_map, Int32.toInt_ofNat_of_lt small]
  apply List.countP_congr
  intro l _
  rw [← key_toNat f bits]
  simp only [Function.comp_apply, decide_eq_true_eq, beq_iff_eq, Nat.cast_inj, UInt64.toNat_inj]

theorem key_small (bits : config.modelBits.toNat ≤ 30) {hashed : List (List Char)} {k : UInt64}
    (member : k ∈ hashed.map fun l => f.hashF l % hashSize config) :
    k.toNat < 2 ^ config.modelBits.toNat ∧ 2 ^ config.modelBits.toNat ≤ 2 ^ 30 := by
  obtain ⟨l, _, rfl⟩ := List.mem_map.mp member
  rw [key_toNat f bits]
  exact ⟨Nat.mod_lt _ (Nat.two_pow_pos _), Nat.pow_le_pow_right (by decide) bits⟩

theorem conserves_tally [IntCast F] (bits : config.modelBits.toNat ≤ 30) (hashed : List (List Char))
    (few : hashed.length < 2 ^ 31) : f.Conserves config hashed
      (outputFeatures (tally (hashed.map fun l => f.hashF l % hashSize config))) := by
  have small {k : UInt64} (member : k ∈ hashed.map fun l => f.hashF l % hashSize config) : k.toNat < 2 ^ 31 := by
    have place := key_small f bits member
    omega
  have counter {k : UInt64} {n : Int32} (member : (k, n) ∈ (tally (hashed.map fun l => f.hashF l % hashSize config)).toList) :
      k.toNat < 2 ^ 31 ∧ 0 < f.amount config hashed (Int32.ofNat k.toNat) ∧
        n.toInt = f.amount config hashed (Int32.ofNat k.toNat) := by
    obtain ⟨used, same⟩ := mem_tally.mp member
    dsimp only at used same
    subst same
    have most := List.count_le_length (a := k) (l := hashed.map fun l => f.hashF l % hashSize config)
    rw [List.length_map] at most
    rw [amount_key f bits hashed (small used), Int32.toInt_ofNat_of_lt (by omega)]
    exact ⟨small used, List.count_pos_iff.mpr used, rfl⟩
  have all : outputFeatures (F := F) (tally (hashed.map fun l => f.hashF l % hashSize config)) =
      (tally (hashed.map fun l => f.hashF l % hashSize config)).toList.map
        fun feat => (Int32.ofNat feat.1.toNat, (feat.2.toInt : F)) := by
    rw [outputFeatures, List.filter_eq_self.mpr]
    rintro ⟨k, n⟩ member
    obtain ⟨_, some_token, same⟩ := counter member
    simp only [decide_eq_true_eq]
    rintro rfl
    rw [show (0 : Int32).toInt = 0 from rfl] at same
    omega
  rw [all]
  refine ⟨?_, ?_, ?_, ?_⟩
  · rw [List.pairwise_map]
    refine (tally_sorted _).imp_of_mem ?_
    rintro ⟨k, n⟩ ⟨k', n'⟩ member member' below
    rw [Int32.toInt_ofNat_of_lt (counter member).1, Int32.toInt_ofNat_of_lt (counter member').1]
    exact Int.ofNat_lt.mpr (UInt64.lt_iff_toNat_lt.mp (Std.compare_eq_lt.mp below))
  · intro e member
    obtain ⟨⟨k, n⟩, used, rfl⟩ := List.mem_map.mp member
    have place := (key_small f bits (mem_tally.mp used).1).1
    rw [Int32.toInt_ofNat_of_lt (counter used).1]
    exact ⟨Int.natCast_nonneg _, by exact_mod_cast place⟩
  · intro e member
    obtain ⟨⟨k, n⟩, used, rfl⟩ := List.mem_map.mp member
    obtain ⟨_, some_token, same⟩ := counter used
    exact ⟨some_token, by rw [same]⟩
  · have total := tally_sum (hashed.map fun l => f.hashF l % hashSize config)
    rw [List.length_map] at total
    rw [List.map_map, ← total]
    congr 1
    apply List.map_congr_left
    intro feat used
    exact amount_key f bits hashed (counter used).1

theorem foldl_count (hashed : List (List Char)) :
    hashed.foldl (f.count config) {} = tally (hashed.map fun l => f.hashF l % hashSize config) := by
  rw [tally, List.foldl_map]
  rfl

end Counts

section Loops
variable {config}

omit [DecidableEq F] [Zero F] [One F] [IntCast F] in
theorem foldl_criteo (columns : List (List Char)) (label : F) :
    columns.foldl (f.criteoColumn config) { label } = {
      col := columns.length
      label := (columns.head?.map f.stringTo).getD label
      features := (columns.drop 14).foldl (f.count config) {} } := by
  induction columns using List.reverseRecOn with
  | nil => rfl
  | append_singleton columns l ih =>
    rw [List.foldl_append, ih]
    simp only [List.foldl_cons, List.foldl_nil, Functions.criteoColumn, List.length_append, List.length_singleton]
    cases columns with
    | nil => rfl
    | cons first rest =>
      rcases Nat.lt_or_ge (first :: rest).length 14 with before | from14
      · have early : ((first :: rest) ++ [l]).drop 14 = [] := List.drop_eq_nil_of_le (by rw [List.length_append, List.length_singleton]; omega)
        have none : (first :: rest).drop 14 = [] := List.drop_eq_nil_of_le (Nat.le_of_lt before)
        rw [early, none, if_neg (by simp), if_neg (by omega)]
        rfl
      · rw [List.drop_append_of_le_length from14, List.foldl_append, if_neg (by simp), if_pos from14]
        rfl

omit [IntCast F] in
theorem foldlM_kaggle (rest : List (List Char)) {s : Columns F} (later : 2 ≤ s.col) :
    rest.foldlM (f.criteoKaggleColumn config) s =
      .ok { s with col := s.col + rest.length, features := rest.foldl (f.count config) s.features } := by
  induction rest generalizing s with
  | nil => rfl
  | cons l rest ih =>
    have one : f.criteoKaggleColumn config s l =
        .ok { s with col := s.col + 1, features := f.count config s.features l } := by
      rw [Functions.criteoKaggleColumn, if_neg (by omega), if_neg (by omega)]
      rfl
    rw [List.foldlM_cons, Loops.bind_of_ok one, ih (Nat.le_succ_of_le later), List.foldl_cons, List.length_cons,
      Nat.add_assoc, Nat.add_comm 1]

omit [IntCast F] in
theorem kaggle_columns {columns : List (List Char)} {l : List Char} (second : columns[1]? = some l)
    (known : f.stringTo l = 0 ∨ f.stringTo l = 1) (label : F) :
    columns.foldlM (f.criteoKaggleColumn config) { label } =
      .ok { col := columns.length, label := f.stringTo l, features := (columns.drop 2).foldl (f.count config) {} } := by
  match columns, second with
  | id :: _ :: rest, rfl =>
    have first : f.criteoKaggleColumn config { label } id = .ok { label, col := 1 } := rfl
    have then_label : f.criteoKaggleColumn config { label, col := 1 } l = .ok { label := f.stringTo l, col := 2 } := by
      rw [Functions.criteoKaggleColumn, if_neg Nat.one_ne_zero, if_pos rfl, if_pos known]
      rfl
    rw [List.foldlM_cons, Loops.bind_of_ok first, List.foldlM_cons, Loops.bind_of_ok then_label,
      foldlM_kaggle f rest (Nat.le_refl 2)]
    simp [Nat.add_comm 2]

end Loops

section Lines

def lineColumns (delimiter : Char) (line : List Char) : List (List Char) :=
  tokens (cString [delimiter]) (cString line)

theorem visited_short (delimiter : Char) (str : List Char) {line : List Char} (short : line.length < 9999) :
    visited [delimiter] str line = .ok (lineColumns delimiter line) := by
  have loops := loop_short (fun _ => false) (cString_clean [delimiter]) short str
  rw [upTo_never] at loops
  have fits : ¬ maxStrSize < line.length := by
    unfold maxStrSize
    omega
  rw [visited, if_neg fits]
  have n : maxStrSize - 1 = 9999 := rfl
  rw [n, loops]
  rfl

theorem tokens_join (delimiter : Char) (text : List Char) :
    [delimiter].intercalate (tokens [delimiter] text) = text ∧ ∀ column ∈ tokens [delimiter] text, delimiter ∉ column := by
  induction text with
  | nil => simp [tokens]
  | cons c rest ih =>
    obtain ⟨joined, free⟩ := ih
    rw [tokens_cons]
    have some_column := tokens_some [delimiter] rest
    generalize tokens [delimiter] rest = columns at *
    cases columns with
    | nil => exact (some_column rfl).elim
    | cons column more =>
      split
      next here =>
        rw [List.intercalate_cons_cons, joined, List.mem_singleton.mp here]
        exact ⟨rfl, List.forall_mem_cons.mpr ⟨List.not_mem_nil, free⟩⟩
      next other =>
        rw [List.mem_singleton] at other
        obtain ⟨here, later⟩ := List.forall_mem_cons.mp free
        refine ⟨?_, List.forall_mem_cons.mpr ⟨List.not_mem_cons_of_ne_of_not_mem (Ne.symm other) here, later⟩⟩
        rw [← joined]
        cases more with
        | nil => simp [longer]
        | cons next more => simp [longer, List.intercalate_cons_cons]

theorem tokens_none (text : List Char) : tokens [] text = [text] := by
  induction text with
  | nil => rfl
  | cons c rest ih =>
    rw [tokens_cons, ih]
    rfl

theorem lineColumns_split (delimiter : Char) (line : List Char) :
    Splits delimiter (cString line) (lineColumns delimiter line) := by
  unfold lineColumns
  by_cases null : delimiter = CString.nul
  · have none : cString [delimiter] = [] := List.takeWhile_cons_of_neg (by simpa using null)
    rw [none, tokens_none, null]
    exact ⟨List.cons_ne_nil _ _, List.intercalate_singleton .., List.forall_mem_singleton.mpr (cString_clean line)⟩
  · have one : cString [delimiter] = [delimiter] := List.takeWhile_cons_of_pos (by simpa using null)
    rw [one]
    obtain ⟨joined, free⟩ := tokens_join delimiter (cString line)
    exact ⟨tokens_some _ _, joined, free⟩

theorem lineColumns_few (delimiter : Char) {line : List Char} (short : line.length < 9999) :
    (lineColumns delimiter line).length < 10000 := by
  have length := cString_length line
  calc (lineColumns delimiter line).length ≤ extent (lineColumns delimiter line) := length_le_extent _
    _ = (cString line).length + 1 := tokens_extent _ _
    _ < 10000 := by omega

end Lines

/-- Both parsers count each of their tokens at its index, and find the label of the line. -/
theorem tokens_conserved (bits : 1 ≤ config.modelBits.toNat ∧ config.modelBits.toNat ≤ 30) (delimiter : Char)
    (str line : List Char) (short : line.length < 9999) (label : F) :
    Splits delimiter (cString line) (lineColumns delimiter line) ∧
    (∀ l, (lineColumns delimiter line)[0]? = some l → f.stringTo l = 0 ∨ f.stringTo l = 1 →
      ∃ features, f.parseCriteoSparseLine config [delimiter] str line label = .ok (features, f.stringTo l) ∧
        f.Conserves config ((lineColumns delimiter line).drop 14) features) ∧
    ∀ l, (lineColumns delimiter line)[1]? = some l → f.stringTo l = 0 ∨ f.stringTo l = 1 →
      ∃ features, f.parseCriteoKaggleSparseLine config [delimiter] str line label = .ok (features, f.stringTo l) ∧
        f.Conserves config ((lineColumns delimiter line).drop 2 ++ if config.useBias then ["bias".toList] else []) features := by
  have read := visited_short delimiter str short
  have few := lineColumns_few delimiter short
  refine ⟨lineColumns_split delimiter line, ?_, ?_⟩
  · intro l first _
    refine ⟨_, ?_, conserves_tally f bits.2 _ ?_⟩
    · rw [Functions.parseCriteoSparseLine, Loops.bind_of_ok read, foldl_criteo, foldl_count, ← List.head?_eq_getElem?] at *
      rw [first]
      rfl
    · rw [List.length_drop]
      omega
  · intro l second known
    refine ⟨_, ?_, conserves_tally f bits.2 _ ?_⟩
    · rw [Functions.parseCriteoKaggleSparseLine, Loops.bind_of_ok read, Loops.bind_of_ok (kaggle_columns f second known label)]
      rw [← foldl_count, List.foldl_append]
      cases config.useBias <;> rfl
    · rw [List.length_append, List.length_drop]
      split <;> simp <;> omega

end Parsers

def lengths : Functions ℤ where
  hashF l := UInt64.ofNat l.length
  stringTo l := if l = ['1'] then 1 else 0

/-- The empty column and the bias are both counted at index 0. -/
theorem kaggle_line_conserved : ∃ features : List (Int32 × ℤ),
    lengths.parseCriteoKaggleSparseLine { modelBits := 2, useBias := true } [','] (List.replicate 10000 'x')
      "7,1,ab,,c".toList 0 = .ok (features, 1) ∧
    lengths.Conserves { modelBits := 2, useBias := true } ["ab".toList, [], ['c'], "bias".toList] features := by
  have columns : lineColumns ',' "7,1,ab,,c".toList = [['7'], ['1'], "ab".toList, [], ['c']] := by decide
  obtain ⟨_, _, kaggle⟩ := tokens_conserved lengths { modelBits := 2, useBias := true } (by decide) ','
    (List.replicate 10000 'x') "7,1,ab,,c".toList (by decide) 0
  obtain ⟨features, parsed, conserved⟩ := kaggle ['1'] (by rw [columns]; rfl) (.inr rfl)
  rw [columns] at conserved
  exact ⟨features, parsed, conserved⟩

end HashingTrick

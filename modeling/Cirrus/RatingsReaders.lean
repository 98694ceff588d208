import Cirrus.Lib.Loops
import Cirrus.NetflixReader
import Cirrus.SparseLRModel

/-!
The numbers of users and of items that the three readers of ratings report, and
the rows and columns of the datasets that they return. Each reports the largest
of the ids it has met, where a row or a column may have that very index.
-/
namespace RatingsReaders
open TextStream Transition NetflixReader SparseLR
variable {I F : Type}

/-- A model of so many users and items can be indexed with the rows and columns of the dataset. -/
def Dimensions (sparseDs : Nat → List (Int32 × F)) (numberUsers numberItems : Int) : Prop :=
  (∀ row, sparseDs row ≠ [] → (row : Int) < numberUsers) ∧ ∀ row, ∀ e ∈ sparseDs row, e.1.toInt < numberItems

/-- The dataset and the two numbers of `read_movielens_ratings` and `read_jester_ratings`. -/
structure Dataset (F : Type) where
  sparseDs : Nat → List (Int32 × F) := fun _ => []
  numberUsers : Int32 := 0
  numberItems : Int32 := 0

def Dataset.Fits (s : Dataset F) : Prop := Dimensions s.sparseDs s.numberUsers.toInt s.numberItems.toInt

/-- The row of the user is an element of a vector with as many rows as it was resized to. -/
def Dataset.push (rows : Nat) (row : Int32 → Int32) (s : Dataset F) (r : Rating F) : Except Fault (Dataset F) :=
  let index := cell (row r.userId)
  if index < rows then
    .ok {
      sparseDs := Function.update s.sparseDs index (s.sparseDs index ++ [(r.movieId, r.rating)])
      numberUsers := max s.numberUsers r.userId
      numberItems := max s.numberItems r.movieId }
  else .error .undefined

def readLine (p : Parser F) (rows : Nat) (row : Int32 → Int32) (s : Dataset F) (line : List Char) :
    Except Fault (Dataset F) :=
  match p.parseLine line with
  | some r => s.push rows row r
  | none => .error .undefined

def movielensRows : Nat := 50732

def jesterDefault : Nat := 10000

/-- The first line is the header. -/
def readMovielensRatings (p : Parser F) (text : List Char) : Except Fault (Dataset F) :=
  (lines text).tail.foldlM (readLine p movielensRows fun userId => userId - 1) {}

/-- Lines of less than three characters are passed over. -/
def readJesterRatings (p : Parser F) (text : List Char) : Except Fault (Dataset F) :=
  (lines text).foldlM (fun s line => if line.length < 3 then .ok s else readLine p jesterDefault id s line) {}

section Reports

structure Reported (row : Int32 → Int32) (ratings : List (Rating F)) (s : Dataset F) : Prop where
  entries : ∀ k e, e ∈ s.sparseDs k ↔ ∃ r ∈ ratings, cell (row r.userId) = k ∧ e = (r.movieId, r.rating)
  users : ∀ r ∈ ratings, r.userId.toInt ≤ s.numberUsers.toInt
  items : ∀ r ∈ ratings, r.movieId.toInt ≤ s.numberItems.toInt
  user : s.numberUsers = 0 ∨ ∃ r ∈ ratings, r.userId = s.numberUsers
  item : s.numberItems = 0 ∨ ∃ r ∈ ratings, r.movieId = s.numberItems

theorem reported_start (row : Int32 → Int32) : Reported row [] ({} : Dataset F) :=
  ⟨by simp, nofun, nofun, .inl rfl, .inl rfl⟩

theorem max_eq (a b : Int32) : max a b = if a.toInt ≤ b.toInt then b else a := by
  change (if a ≤ b then b else a) = _
  simp only [Int32.le_iff_toInt_le]

theorem max_top (a b : Int32) :
    a.toInt ≤ (max a b).toInt ∧ b.toInt ≤ (max a b).toInt ∧ (max a b = a ∨ max a b = b) := by
  rw [max_eq]
  split
  next below => exact ⟨below, Int.le_refl _, .inr rfl⟩
  next above => exact ⟨Int.le_refl _, by omega, .inl rfl⟩

theorem top_concat {f : Rating F → Int32} {ratings : List (Rating F)} {top : Int32}
    (upper : ∀ r ∈ ratings, (f r).toInt ≤ top.toInt) (met : top = 0 ∨ ∃ r ∈ ratings, f r = top) (r : Rating F) :
    (∀ r' ∈ ratings ++ [r], (f r').toInt ≤ (max top (f r)).toInt) ∧
      (max top (f r) = 0 ∨ ∃ r' ∈ ratings ++ [r], f r' = max top (f r)) := by
  obtain ⟨old, new, which⟩ := max_top top (f r)
  constructor
  · intro r' member
    rcases List.mem_append.mp member with before | last
    · exact Int.le_trans (upper r' before) old
    · exact List.mem_singleton.mp last ▸ new
  · rcases which with same | same
    · rw [same]
      exact met.imp id fun ⟨r', member, equal⟩ => ⟨r', List.mem_append_left _ member, equal⟩
    · exact .inr ⟨r, by simp, same.symm⟩

theorem Reported.push {row : Int32 → Int32} {ratings : List (Rating F)} {s : Dataset F}
    (reported : Reported row ratings s) {rows : Nat} {r : Rating F} (inside : cell (row r.userId) < rows) :
    ∃ t, s.push rows row r = .ok t ∧ Reported row (ratings ++ [r]) t := by
  obtain ⟨users, user⟩ := top_concat (f := Rating.userId) reported.users reported.user r
  obtain ⟨items, item⟩ := top_concat (f := Rating.movieId) reported.items reported.item r
  refine ⟨_, if_pos inside, ?_, users, items, user, item⟩
  intro k e
  by_cases here : k = cell (row r.userId)
  · subst here
    simp only [Function.update_self, List.mem_append, List.mem_singleton, reported.entries]
    constructor
    · rintro (⟨r', member, same, rfl⟩ | rfl)
      · exact ⟨r', .inl member, same, rfl⟩
      · exact ⟨r, .inr rfl, rfl, rfl⟩
    · rintro ⟨r', member | rfl, same, rfl⟩
      · exact .inl ⟨r', member, same, rfl⟩
      · exact .inr rfl
  · simp only [Function.update_of_ne here, List.mem_append, List.mem_singleton, reported.entries]
    constructor
    · rintro ⟨r', member, same, rfl⟩
      exact ⟨r', .inl member, same, rfl⟩
    · rintro ⟨r', member | rfl, same, rfl⟩
      · exact ⟨r', member, same, rfl⟩
      · exact absurd same.symm here

theorem readLines_ok (p : Parser F) (row : Int32 → Int32) {rows : Nat} {text : List (List Char)}
    (valid : ∀ line ∈ text, ∃ r, p.parseLine line = some r ∧ cell (row r.userId) < rows) :
    ∃ s, text.foldlM (readLine p rows row) {} = .ok s ∧ Reported row (text.filterMap p.parseLine) s := by
  apply Loops.foldlM_gives (P := fun seen s => Reported row (seen.filterMap p.parseLine) s) _ (reported_start row)
  intro seen line here s reported
  obtain ⟨r, parsed, inside⟩ := valid line (Loops.mem_of_here here)
  obtain ⟨t, done, after⟩ := reported.push inside
  refine ⟨t, ?_, ?_⟩
  · rw [readLine, parsed]
    exact done
  · simpa [parsed] using after

theorem readJester_filter (p : Parser F) (text : List Char) :
    readJesterRatings p text =
      ((lines text).filter fun line => ¬ line.length < 3).foldlM (readLine p jesterDefault id) {} := by
  unfold readJesterRatings
  generalize ({} : Dataset F) = s
  induction lines text generalizing s with
  | nil => rfl
  | cons line rest ih =>
    by_cases short : line.length < 3
    · rw [List.foldlM_cons, if_pos short, List.filter_cons_of_neg (by simpa using short)]
      exact ih s
    · rw [List.foldlM_cons, if_neg short, List.filter_cons_of_pos (by simpa using short), List.foldlM_cons]
      cases readLine p jesterDefault id s line with
      | error fault => rfl
      | ok t => exact ih t

variable {row : Int32 → Int32} {ratings : List (Rating F)} {s : Dataset F}

theorem Reported.fits_of_nil (reported : Reported row [] s) : s.Fits := by
  have none (k : Nat) : s.sparseDs k = [] := by
    rw [List.eq_nil_iff_forall_not_mem]
    intro e member
    simpa using (reported.entries k e).mp member
  constructor
  · exact fun k some_entry => absurd (none k) some_entry
  · intro k e member
    rw [none k] at member
    cases member

theorem exists_top {f : Rating F → Int32} {top : Int32} (some_rating : ratings ≠ [])
    (natural : ∀ r ∈ ratings, 0 ≤ (f r).toInt) (upper : ∀ r ∈ ratings, (f r).toInt ≤ top.toInt)
    (met : top = 0 ∨ ∃ r ∈ ratings, f r = top) : ∃ r ∈ ratings, f r = top := by
  rcases met with zero | met
  · obtain ⟨r, member⟩ := List.exists_mem_of_ne_nil ratings some_rating
    have least := natural r member
    have most := upper r member
    rw [zero] at most
    exact ⟨r, member, Int32.toInt_inj.mp (by rw [zero]; exact Int.le_antisymm most least)⟩
  · exact met

theorem fits_iff_items (reported : Reported row ratings s) (natural : ∀ r ∈ ratings, 0 ≤ r.movieId.toInt) :
    s.Fits ↔ ratings = [] := by
  constructor
  · intro fits
    by_contra some_rating
    obtain ⟨r, member, top⟩ := exists_top some_rating natural reported.items reported.item
    have column := fits.2 _ _ ((reported.entries _ _).mpr ⟨r, member, rfl, rfl⟩)
    rw [top] at column
    exact Int.lt_irrefl _ column
  · rintro rfl
    exact reported.fits_of_nil

theorem fits_iff_users (reported : Reported id ratings s) (natural : ∀ r ∈ ratings, 0 ≤ r.userId.toInt) :
    s.Fits ↔ ratings = [] := by
  constructor
  · intro fits
    by_contra some_rating
    obtain ⟨r, member, top⟩ := exists_top some_rating natural reported.users reported.user
    have entry := (reported.entries (cell r.userId) (r.movieId, r.rating)).mpr ⟨r, member, rfl, rfl⟩
    have below := fits.1 _ (List.ne_nil_of_mem entry)
    rw [cell_of_natural (natural r member), ← top, Int.toNat_of_nonneg (natural r member)] at below
    exact Int.lt_irrefl _ below
  · rintro rfl
    exact reported.fits_of_nil

theorem ratings_nil {p : Parser F} {text : List (List Char)} (valid : ∀ line ∈ text, (p.parseLine line).isSome) :
    text.filterMap p.parseLine = [] ↔ text = [] := by
  cases text with
  | nil => simp
  | cons line rest =>
    obtain ⟨r, parsed⟩ := Option.isSome_iff_exists.mp (valid line List.mem_cons_self)
    simp [parsed]

theorem of_ratings {p : Parser F} {text : List (List Char)} {P : Rating F → Prop}
    (valid : ∀ line ∈ text, ∃ r, p.parseLine line = some r ∧ P r) : ∀ r ∈ text.filterMap p.parseLine, P r := by
  intro r member
  obtain ⟨line, here, parsed⟩ := List.mem_filterMap.mp member
  obtain ⟨r', parsed', holds⟩ := valid line here
  rw [parsed] at parsed'
  cases parsed'
  exact holds

theorem isSome_of {p : Parser F} {text : List (List Char)} {P : Rating F → Prop}
    (valid : ∀ line ∈ text, ∃ r, p.parseLine line = some r ∧ P r) : ∀ line ∈ text, (p.parseLine line).isSome := by
  intro line member
  obtain ⟨r, parsed, _⟩ := valid line member
  rw [parsed]
  rfl

theorem movielens_row {userId : Int32} (least : 1 ≤ userId.toInt) (most : userId.toInt ≤ movielensRows) :
    cell (userId - 1) < movielensRows := by
  unfold movielensRows at *
  have before : (userId - 1).toInt = userId.toInt - 1 := by
    rw [Int32.toInt_sub, show (1 : Int32).toInt = 1 by decide]
    exact Int.bmod_eq_of_le (by omega) (by omega)
  rw [cell_of_natural (by omega), before]
  omega

theorem movielens_iff (p : Parser F) (text : List Char)
    (valid : ∀ line ∈ (lines text).tail, ∃ r, p.parseLine line = some r ∧
      1 ≤ r.userId.toInt ∧ r.userId.toInt ≤ movielensRows ∧ 1 ≤ r.movieId.toInt) :
    ∃ s, readMovielensRatings p text = .ok s ∧ (s.Fits ↔ (lines text).tail = []) := by
  have rows : ∀ line ∈ (lines text).tail, ∃ r, p.parseLine line = some r ∧ cell (r.userId - 1) < movielensRows := by
    intro line member
    obtain ⟨r, parsed, least, most, _⟩ := valid line member
    exact ⟨r, parsed, movielens_row least most⟩
  obtain ⟨s, read, reported⟩ := readLines_ok p (fun userId => userId - 1) rows
  have natural := of_ratings valid
  refine ⟨s, read, (fits_iff_items reported fun r member => ?_).trans (ratings_nil (isSome_of valid))⟩
  obtain ⟨_, _, least⟩ := natural r member
  omega

theorem jester_iff (p : Parser F) (text : List Char)
    (valid : ∀ line ∈ lines text, 3 ≤ line.length → ∃ r, p.parseLine line = some r ∧
      0 ≤ r.userId.toInt ∧ r.userId.toInt < jesterDefault ∧ 0 ≤ r.movieId.toInt) :
    ∃ s, readJesterRatings p text = .ok s ∧ (s.Fits ↔ ∀ line ∈ lines text, line.length < 3) := by
  rw [readJester_filter]
  have valid' : ∀ line ∈ (lines text).filter fun line => ¬ line.length < 3, ∃ r, p.parseLine line = some r ∧
      0 ≤ r.userId.toInt ∧ r.userId.toInt < jesterDefault ∧ 0 ≤ r.movieId.toInt := by
    intro line member
    obtain ⟨here, long⟩ := List.mem_filter.mp member
    exact valid line here (by simpa using long)
  have rows : ∀ line ∈ (lines text).filter fun line => ¬ line.length < 3,
      ∃ r, p.parseLine line = some r ∧ cell (id r.userId) < jesterDefault := by
    intro line member
    obtain ⟨r, parsed, least, most, _⟩ := valid' line member
    refine ⟨r, parsed, ?_⟩
    rw [id, cell_of_natural least]
    omega
  obtain ⟨s, read, reported⟩ := readLines_ok p id rows
  have natural := of_ratings valid'
  refine ⟨s, read, (fits_iff_users reported fun r member => (natural r member).1).trans ?_⟩
  rw [ratings_nil (isSome_of valid'), List.filter_eq_nil_iff]
  simp

end Reports

section Netflix

def row (s : State I F) (k : Nat) : List (Int32 × F) :=
  if inside : k < numberRows then s.sparseDs ⟨k, inside⟩ else []

def Busy (t : Thread F) : Prop := t.place = .parsing ∨ ∃ rating, t.place = .mapping rating

/-- The number that a thread will report is the number of a user, or the 0 that it starts from. -/
structure Reports (userIndex : Nat) (eof : Bool) (t : Thread F) : Prop where
  number : t.numusersLocal = 0 ∨ t.numusersLocal < userIndex
  ended : t.place = .finishing ∨ t.place = .done → eof = true

structure Numbered (text : List Char) (s : State I F) : Prop where
  proper : s.fin.Proper
  stored : ∃ n, Stored n s
  room : s.userIndex ≤ numberRows
  total : s.numberUsers = 0 ∨ s.numberUsers < s.userIndex
  threads : ∀ i, Reports s.userIndex s.fin.eof (s.threads i)
  met : '\n' ∈ text ↔ '\n' ∈ s.fin.rest ∨ s.applied ≠ [] ∨ ∃ i, Busy (s.threads i)

theorem numbered_start {text : List Char} {s : State I F} (start : AtStart text s) : Numbered text s := by
  have stored := stored_start start
  cases start
  exact ⟨⟨nofun, nofun⟩, ⟨_, stored⟩, Nat.zero_le _, .inl rfl, fun _ => ⟨.inl rfl, nofun⟩, by simp [Busy]⟩

theorem max_zero_or {a b bound : Nat} (first : a = 0 ∨ a < bound) (second : b = 0 ∨ b < bound) :
    max a b = 0 ∨ max a b < bound := by
  omega

variable [DecidableEq I] {text : List Char} {s t : State I F} {i : I} {new : Thread F} {p : Parser F}

theorem met_update (met : '\n' ∈ text ↔ '\n' ∈ s.fin.rest ∨ s.applied ≠ [] ∨ ∃ i, Busy (s.threads i))
    (threads : t.threads = Function.update s.threads i new)
    (change : ('\n' ∈ s.fin.rest ∨ s.applied ≠ [] ∨ Busy (s.threads i)) ↔ ('\n' ∈ t.fin.rest ∨ t.applied ≠ [] ∨ Busy new)) :
    '\n' ∈ text ↔ '\n' ∈ t.fin.rest ∨ t.applied ≠ [] ∨ ∃ i, Busy (t.threads i) := by
  have split (f : I → Thread F) : (∃ j, Busy (f j)) ↔ Busy (f i) ∨ ∃ j ≠ i, Busy (f j) := by
    constructor
    · rintro ⟨j, busy⟩
      by_cases here : j = i
      · exact .inl (here ▸ busy)
      · exact .inr ⟨j, here, busy⟩
    · rintro (busy | ⟨j, _, busy⟩)
      · exact ⟨i, busy⟩
      · exact ⟨j, busy⟩
  have others : (∃ j ≠ i, Busy (t.threads j)) ↔ ∃ j ≠ i, Busy (s.threads j) := by
    refine exists_congr fun j => and_congr_right fun other => ?_
    rw [threads, Function.update_of_ne other]
  rw [split] at met ⊢
  rw [others, threads, Function.update_self]
  simp only [← or_assoc] at met change ⊢
  rw [met, change]

/-- The end of the file is met exactly where no newline is left. -/
theorem getline_newline {fin : InputStream} (proper : fin.Proper) (line : List Char) :
    (fin.eof = true → (fin.getline line).2.eof = true) ∧ ((fin.getline line).2.eof = true ↔ '\n' ∉ fin.rest) := by
  unfold InputStream.getline
  split
  next bad =>
    have eof : fin.eof = true := bad.elim id proper.failed
    simp [eof, proper.ended eof]
  next good =>
    have eof : fin.eof = false := by simpa using fun h => good (.inl h)
    have newline := takeLine_isSome fin.rest
    split
    next text rest read => simpa [eof, read] using newline
    next text read => simpa [eof, read] using newline

theorem numbered_read (numbered : Numbered text s) (here : (s.threads i).place = .reading) {line : List Char}
    {fin : InputStream} (got : s.fin.getline (s.threads i).line = (line, fin)) :
    Numbered text { s with fin, threads := Function.update s.threads i { s.threads i with
      place := if fin.eof then .finishing else .parsing, line } } := by
  obtain ⟨stays, ends⟩ := getline_newline numbered.proper (s.threads i).line
  have proper := numbered.proper.getline got
  rw [got] at stays ends
  dsimp only at stays ends
  obtain ⟨n, stored⟩ := numbered.stored
  have idle : ¬ Busy (s.threads i) := by simp [Busy, here]
  refine ⟨proper, ⟨n, stored.numbers, stored.index, stored.users, stored.rows⟩, numbered.room, numbered.total,
    ?_, met_update numbered.met rfl ?_⟩
  · apply forall_update
    · exact fun j => ⟨(numbered.threads j).number, fun ended => stays ((numbered.threads j).ended ended)⟩
    · refine ⟨(numbered.threads i).number, ?_⟩
      cases fin.eof <;> simp
  · dsimp only
    cases eof : fin.eof with
    | false =>
      have newline : '\n' ∈ s.fin.rest := by simpa [eof] using ends
      simp [Busy, newline]
    | true =>
      have last : '\n' ∉ s.fin.rest := ends.mp eof
      simp [Busy, here, last, proper.ended eof]

theorem numbered_mapping {rating : Rating F} (numbered : Numbered text s)
    (here : (s.threads i).place = .mapping rating) (taken : p.step s i = some t) : Numbered text t := by
  obtain ⟨n, stored⟩ := numbered.stored
  obtain ⟨id, number, renamed⟩ := rename_eq stored rating.userId
  have given := FirstSeen.number_lt number
  obtain ⟨more, most⟩ := FirstSeen.length_see number
  have index := stored.index
  have room := numbered.room
  have total := numbered.total
  unfold Parser.step at taken
  dsimp only at taken
  rw [here] at taken
  dsimp only at taken
  rw [renamed] at taken
  dsimp only at taken
  split at taken
  next inside =>
    cases taken
    refine ⟨numbered.proper, ⟨_, stored_add stored rating inside number rfl rfl rfl rfl⟩, ?_, ?_, ?_,
      met_update numbered.met rfl ?_⟩
    · dsimp only
      omega
    · dsimp only
      omega
    · apply forall_update
      · intro j
        have before := (numbered.threads j).number
        exact ⟨by dsimp only; omega, (numbered.threads j).ended⟩
      · have before := (numbered.threads i).number
        refine ⟨by dsimp only; omega, ?_⟩
        rintro (finishing | done)
        · cases finishing
        · cases done
    · simp [Busy, here]
  next => cases taken

theorem numbered_step (numbered : Numbered text s) (taken : p.step s i = some t) : Numbered text t := by
  obtain ⟨n, stored⟩ := numbered.stored
  cases here : (s.threads i).place with
  | mapping rating => exact numbered_mapping numbered here taken
  | reading =>
    unfold Parser.step at taken
    dsimp only at taken
    rw [here] at taken
    cases taken
    exact numbered_read numbered here rfl
  | parsing =>
    unfold Parser.step at taken
    dsimp only at taken
    rw [here] at taken
    obtain ⟨rating, parsed, same⟩ := Option.map_eq_some_iff.mp taken
    cases same
    exact ⟨numbered.proper, ⟨n, stored.numbers, stored.index, stored.users, stored.rows⟩, numbered.room, numbered.total,
      forall_update numbered.threads ⟨(numbered.threads i).number, nofun⟩,
      met_update numbered.met rfl (by simp [Busy, here])⟩
  | finishing =>
    unfold Parser.step at taken
    dsimp only at taken
    rw [here] at taken
    cases taken
    exact ⟨numbered.proper, ⟨n, stored.numbers, stored.index, stored.users, stored.rows⟩, numbered.room,
      max_zero_or numbered.total (numbered.threads i).number,
      forall_update numbered.threads ⟨(numbered.threads i).number, fun _ => (numbered.threads i).ended (.inl here)⟩,
      met_update numbered.met rfl (by simp [Busy, here])⟩
  | done =>
    unfold Parser.step at taken
    dsimp only at taken
    rw [here] at taken
    cases taken

theorem numbered_reachable (reached : Reachable p.step (AtStart text) anyStep s) : Numbered text s :=
  reached.invariant (fun _ start => numbered_start start) fun _ _ _ numbered _ taken => numbered_step numbered taken

theorem netflix_iff [Nonempty I] (reached : Reachable p.step (AtStart text) anyStep s) (finished : Finished s) :
    Dimensions (row s) s.numberUsers s.numberMovies.toInt ↔ '\n' ∉ text := by
  have numbered := numbered_reachable reached
  obtain ⟨n, stored⟩ := numbered.stored
  obtain ⟨i⟩ := ‹Nonempty I›
  have rest := numbered.proper.ended ((numbered.threads i).ended (.inr (finished i)))
  have places : ∀ i, (s.threads i).place = .done := finished
  have met : '\n' ∈ text ↔ s.applied ≠ [] := by simpa [rest, Busy, places] using numbered.met
  rw [met, not_not]
  constructor
  · intro fits
    by_contra some_rating
    obtain ⟨r, member⟩ := List.exists_mem_of_ne_nil s.applied some_rating
    have first : 0 < n.order.length :=
      List.length_pos_of_mem ((stored.users r.userId).mpr (mem_users.mpr ⟨r, member, rfl⟩))
    obtain ⟨u, last⟩ := FirstSeen.number_onto (n := n) (i := n.order.length - 1) (by omega)
    have seen : u ∈ n.order := FirstSeen.number_isSome.mp (by rw [last]; rfl)
    obtain ⟨r', member', rfl⟩ := mem_users.mp ((stored.users u).mp seen)
    have index := stored.index
    have room := numbered.room
    have inside : n.order.length - 1 < numberRows := by omega
    have below := fits.1 (n.order.length - 1)
    rw [row, dif_pos inside, stored.rows] at below
    have used : ((s.applied.filter fun r => n.number r.userId = some (n.order.length - 1)).map Rating.entry) ≠ [] :=
      List.ne_nil_of_mem (List.mem_map_of_mem (List.mem_filter.mpr ⟨member', by simpa using last⟩))
    have reported := below used
    have total := numbered.total
    omega
  · intro none
    have empty (k : Nat) : row s k = [] := by
      unfold row
      split
      · rw [stored.rows, none]
        rfl
      · rfl
    constructor
    · exact fun k used => (used (empty k)).elim
    · intro k e member
      rw [empty k] at member
      cases member

end Netflix

/-- One by its columns, one by its rows and columns, and one by its rows does not fit where there is a rating. -/
theorem dimensions_iff {I F : Type} [DecidableEq I] [Nonempty I] (p : Parser F) (text : List Char) :
    ((∀ line ∈ (lines text).tail, ∃ r, p.parseLine line = some r ∧
        1 ≤ r.userId.toInt ∧ r.userId.toInt ≤ movielensRows ∧ 1 ≤ r.movieId.toInt) →
      ∃ s, readMovielensRatings p text = .ok s ∧ (s.Fits ↔ (lines text).tail = [])) ∧
    ((∀ line ∈ lines text, 3 ≤ line.length → ∃ r, p.parseLine line = some r ∧
        0 ≤ r.userId.toInt ∧ r.userId.toInt < jesterDefault ∧ 0 ≤ r.movieId.toInt) →
      ∃ s, readJesterRatings p text = .ok s ∧ (s.Fits ↔ ∀ line ∈ lines text, line.length < 3)) ∧
    ∀ s : State I F, Reachable p.step (AtStart text) anyStep s → Finished s →
      (Dimensions (row s) s.numberUsers s.numberMovies.toInt ↔ '\n' ∉ text) := by
  exact ⟨movielens_iff p text, jester_iff p text, fun _ reached finished => netflix_iff reached finished⟩

def twoRatings : List Char := "1,1,5\n2,1,4\n".toList

theorem twoRatings_lines : lines twoRatings = ["1,1,5".toList, "2,1,4".toList] := by decide

theorem two_ratings_outside :
    (∃ s, readMovielensRatings digits twoRatings = .ok s ∧ ¬ s.Fits) ∧
    (∃ s, readJesterRatings digits twoRatings = .ok s ∧ ¬ s.Fits) ∧
    ∃ s : State (Fin 2) Nat, Finished s ∧ ¬ Dimensions (row s) s.numberUsers s.numberMovies.toInt := by
  have ends : (follow digits.step ({ fin := { rest := twoRatings } } : State (Fin 2) Nat) [0, 1, 0, 1, 1, 0, 0, 1, 0, 1]).map
      (fun s => ((s.threads 0).place, (s.threads 1).place)) = some (.done, .done) := by decide
  obtain ⟨s, taken, last⟩ := Option.map_eq_some_iff.mp ends
  obtain ⟨first, second⟩ := Prod.mk.inj last
  have finished : Finished s := Fin.forall_fin_two.mpr ⟨first, second⟩
  obtain ⟨movielens, jester, netflix⟩ := dimensions_iff (I := Fin 2) digits twoRatings
  obtain ⟨m, read, fits⟩ := movielens (by rw [twoRatings_lines]; exact List.forall_mem_singleton.mpr ⟨_, rfl, by decide⟩)
  obtain ⟨j, read', fits'⟩ := jester (by
    rw [twoRatings_lines]
    exact List.forall_mem_cons.mpr ⟨fun _ => ⟨_, rfl, by decide⟩,
      List.forall_mem_singleton.mpr fun _ => ⟨_, rfl, by decide⟩⟩)
  rw [twoRatings_lines] at fits fits'
  exact ⟨⟨m, read, mt fits.mp (by decide)⟩,
    ⟨j, read', mt fits'.mp fun short => absurd (short _ List.mem_cons_self) (by decide)⟩,
    s, finished, mt (netflix s (.follow (.start rfl) taken) finished).mp (by decide)⟩

/-- User 1 and item 1 in a file of one rating after the header: there is no column 1 among as many as one. -/
theorem one_rating_outside : ∃ s, readMovielensRatings digits "userId,movieId\n1,1,5\n".toList = .ok s ∧
    s.numberUsers = 1 ∧ s.numberItems = 1 ∧ s.sparseDs 0 = [(1, 5)] ∧ ¬ s.Fits := by
  refine ⟨_, rfl, by decide, by decide, by decide, ?_⟩
  intro fits
  exact absurd (fits.2 0 (1, 5) (by decide)) (by decide)

end RatingsReaders

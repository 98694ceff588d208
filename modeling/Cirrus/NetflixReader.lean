import Cirrus.CsvReader
import Cirrus.Lib.FirstSeen
import Mathlib.Algebra.Order.Group.Multiset
import Mathlib.Tactic.Abel

/-!
The threads of `read_netflix_input_thread`. The end of the file is tested under
the lock that the line is read under, and a user's number and its row are
written under one lock, so no line is lost and no number given twice.
-/
namespace NetflixReader
open TextStream Transition
variable {I F : Type}

/-- `sparse_ds.resize` -/
def numberRows : Nat := 480189

structure Rating (F : Type) where
  userId : Int32
  movieId : Int32
  rating : F
  deriving DecidableEq

/-- What `push_back` adds to the row of the user. -/
def Rating.entry (r : Rating F) : Int32 × F := (r.movieId - 1, r.rating)

/-- `string_to<int>` and `string_to<FEATURE_TYPE>` -/
structure Parser (F : Type) where
  stringToInt : List Char → Int32
  stringTo : List Char → F

/-- A longer line fails the assertion, and one with fewer columns passes `string_to` a null pointer. -/
def Parser.parseLine (p : Parser F) (line : List Char) : Option (Rating F) :=
  if line.length + 1 < CsvReader.maxStrSize then
    match CsvReader.tokens [','] (line.takeWhile (· ≠ '\x00')) with
    | userId :: movieId :: rating :: _ => some ⟨p.stringToInt userId, p.stringToInt movieId, p.stringTo rating⟩
    | _ => none
  else none

inductive Place (F : Type)
  | reading
  | parsing
  | mapping (rating : Rating F)
  | finishing
  | done
  deriving DecidableEq

structure Thread (F : Type) where
  place : Place F := .reading
  line : List Char := []
  numusersLocal : Nat := 0
  nummoviesLocal : Int32 := 0

/-- `applied` is a history: the ratings in the order in which they were added. -/
structure State (I F : Type) where
  fin : InputStream
  sparseDs : Fin numberRows → List (Int32 × F) := fun _ => []
  numberMovies : Int32 := 0
  numberUsers : Nat := 0
  useridToRealid : Int32 → Option Nat := fun _ => none
  userIndex : Nat := 0
  threads : I → Thread F := fun _ => {}
  applied : List (Rating F) := []

/-- The number of a user, given to it here where it has none yet. -/
def State.rename (s : State I F) (userId : Int32) : Nat × State I F :=
  match s.useridToRealid userId with
  | none => (s.userIndex, { s with
      useridToRealid := Function.update s.useridToRealid userId (some s.userIndex)
      userIndex := s.userIndex + 1 })
  | some id => (id, s)

section Steps
variable [DecidableEq I]

/-- A number past the last row fails at `sparse_ds.at`. -/
def Parser.step (p : Parser F) (s : State I F) (i : I) : Option (State I F) :=
  let t := s.threads i
  let moves (t : Thread F) (s : State I F) := { s with threads := Function.update s.threads i t }
  match t.place with
  | .reading =>
    let (line, fin) := s.fin.getline t.line
    some (moves { t with place := if fin.eof then .finishing else .parsing, line } { s with fin })
  | .parsing => (p.parseLine t.line).map fun rating => moves { t with place := .mapping rating } s
  | .mapping rating =>
    let (newuserId, s) := s.rename rating.userId
    if inside : newuserId < numberRows then
      some (moves { t with
        place := .reading
        numusersLocal := max t.numusersLocal newuserId
        nummoviesLocal := max t.nummoviesLocal rating.movieId } { s with
        sparseDs := Function.update s.sparseDs ⟨newuserId, inside⟩ (s.sparseDs ⟨newuserId, inside⟩ ++ [rating.entry])
        applied := s.applied ++ [rating] })
    else none
  | .finishing => some (moves { t with place := .done } { s with
      numberUsers := max s.numberUsers t.numusersLocal
      numberMovies := max s.numberMovies t.nummoviesLocal })
  | .done => none

end Steps

def AtStart (text : List Char) (s : State I F) : Prop := s = { fin := { rest := text } }

def Finished (s : State I F) : Prop := ∀ i, (s.threads i).place = .done

def Parser.WellFormed (p : Parser F) (text : List Char) : Prop := ∀ line ∈ lines text, (p.parseLine line).isSome

def Parser.ratings (p : Parser F) (text : List Char) : List (Rating F) := (lines text).filterMap p.parseLine

def users (data : List (Rating F)) : Finset Int32 := (data.map Rating.userId).toFinset

/-- The users are renamed to the first numbers, and each rating is in the row of its user. -/
structure Renamed (data : List (Rating F)) (s : State I F) : Prop where
  domain : ∀ u, (s.useridToRealid u).isSome ↔ u ∈ users data
  injective : ∀ u v n, s.useridToRealid u = some n → s.useridToRealid v = some n → u = v
  onto : ∀ n, n < s.userIndex ↔ ∃ u, s.useridToRealid u = some n
  count : s.userIndex = (users data).card
  rows : ∀ u n, s.useridToRealid u = some n → ∃ inside : n < numberRows,
    (s.sparseDs ⟨n, inside⟩).Perm ((data.filter fun r => r.userId = u).map Rating.entry)
  others : ∀ n : Fin numberRows, s.userIndex ≤ n → s.sparseDs n = []

theorem mem_users {data : List (Rating F)} {u : Int32} : u ∈ users data ↔ ∃ r ∈ data, r.userId = u := by
  rw [users, List.mem_toFinset, List.mem_map]

section Store

structure Stored (n : FirstSeen Int32) (s : State I F) : Prop where
  numbers : s.useridToRealid = n.number
  index : s.userIndex = n.order.length
  users : ∀ u, u ∈ n.order ↔ u ∈ users s.applied
  rows : ∀ k : Fin numberRows, s.sparseDs k = (s.applied.filter fun r => n.number r.userId = some k.val).map Rating.entry

theorem stored_start {text : List Char} {s : State I F} (start : AtStart text s) : Stored FirstSeen.empty s := by
  cases start
  constructor
  · ext u n
    rw [FirstSeen.number_eq_some]
    simp [FirstSeen.empty]
  · rfl
  · intro u
    simp [FirstSeen.empty, users]
  · exact fun _ => rfl

theorem users_append (data : List (Rating F)) (r : Rating F) (u : Int32) :
    u ∈ users (data ++ [r]) ↔ u ∈ users data ∨ u = r.userId := by
  rw [users, users, List.map_append, List.toFinset_append, Finset.mem_union]
  simp

theorem rename_eq {n : FirstSeen Int32} {s : State I F} (stored : Stored n s) (u : Int32) :
    ∃ id, (n.see u).number u = some id ∧ s.rename u = (id, { s with
      useridToRealid := (n.see u).number
      userIndex := (n.see u).order.length }) := by
  unfold State.rename
  cases found : s.useridToRealid u with
  | none =>
    rw [stored.numbers] at found
    have new : u ∉ n.order := by
      rw [← FirstSeen.number_isSome, found]
      exact Bool.false_ne_true
    rw [FirstSeen.number_see_new new, Function.update_self, FirstSeen.see_new new, stored.numbers, stored.index,
      List.length_append]
    exact ⟨n.order.length, rfl, rfl⟩
  | some id =>
    rw [stored.numbers] at found
    have old : u ∈ n.order := by
      rw [← FirstSeen.number_isSome, found]
      rfl
    rw [FirstSeen.see_old old, ← stored.numbers, ← stored.index]
    refine ⟨id, ?_, rfl⟩
    rw [stored.numbers, found]

theorem filter_see {n : FirstSeen Int32} {data : List (Rating F)} (known : ∀ u, u ∈ n.order ↔ u ∈ users data)
    (u : Int32) (k : Nat) :
    (data.filter fun r => (n.see u).number r.userId = some k) = data.filter fun r => n.number r.userId = some k := by
  apply List.filter_congr
  intro r member
  have old : r.userId ∈ n.order := (known r.userId).mpr (mem_users.mpr ⟨r, member, rfl⟩)
  by_cases same : u ∈ n.order
  · rw [FirstSeen.see_old same]
  · have other : r.userId ≠ u := fun equal => same (equal ▸ old)
    rw [FirstSeen.number_see_new same, Function.update_of_ne other]

theorem stored_add {n : FirstSeen Int32} {s t : State I F} (stored : Stored n s) (r : Rating F) {id : Nat}
    (inside : id < numberRows) (number : (n.see r.userId).number r.userId = some id)
    (numbers : t.useridToRealid = (n.see r.userId).number) (index : t.userIndex = (n.see r.userId).order.length)
    (rows : t.sparseDs = Function.update s.sparseDs ⟨id, inside⟩ (s.sparseDs ⟨id, inside⟩ ++ [r.entry]))
    (applied : t.applied = s.applied ++ [r]) : Stored (n.see r.userId) t := by
  refine ⟨numbers, index, ?_, ?_⟩
  · intro u
    rw [FirstSeen.mem_see, stored.users, applied, users_append]
  · intro k
    rw [rows, applied, List.filter_append, List.map_append, filter_see stored.users, ← stored.rows]
    by_cases here : k = ⟨id, inside⟩
    · rw [here, Function.update_self, List.filter_cons_of_pos (by simpa using number)]
      rfl
    · have other : ¬ id = k.val := fun same => here (Fin.ext same.symm)
      rw [Function.update_of_ne here, List.filter_cons_of_neg (by simpa [number] using other)]
      exact (List.append_nil _).symm

theorem renamed_of_stored {n : FirstSeen Int32} {s : State I F} (stored : Stored n s) {data : List (Rating F)}
    (all : s.applied.Perm data) (few : (users data).card ≤ numberRows) : Renamed data s := by
  obtain ⟨numbers, index, known, rows⟩ := stored
  have order : ∀ u, u ∈ n.order ↔ u ∈ users data := by
    intro u
    rw [known, mem_users, mem_users]
    exact exists_congr fun r => and_congr_left' all.mem_iff
  have length : n.order.length = (users data).card := FirstSeen.order_length order
  refine ⟨?_, ?_, ?_, index.trans length, ?_, ?_⟩
  · intro u
    rw [numbers, FirstSeen.number_isSome, order]
  · intro u v k first second
    rw [numbers] at first second
    exact FirstSeen.number_injective first second
  · intro k
    rw [index, numbers]
    exact ⟨FirstSeen.number_onto, fun ⟨u, number⟩ => FirstSeen.number_lt number⟩
  · intro u k number
    rw [numbers] at number
    have inside : k < numberRows := by
      have below := FirstSeen.number_lt number
      omega
    refine ⟨inside, ?_⟩
    have same : (s.applied.filter fun r => n.number r.userId = some k) = s.applied.filter fun r => r.userId = u := by
      apply List.filter_congr
      intro r _
      rw [decide_eq_decide]
      exact ⟨fun other => FirstSeen.number_injective other number, fun equal => equal ▸ number⟩
    rw [rows, same]
    exact (all.filter _).map _
  · intro k past
    rw [rows, List.map_eq_nil_iff, List.filter_eq_nil_iff]
    intro r _ number
    have below := FirstSeen.number_lt (of_decide_eq_true number)
    omega

end Store

section Runs

/-- How many steps a thread is from its end when no further line is read. -/
def Place.distance : Place F → Nat
  | parsing => 4
  | mapping _ => 3
  | reading => 2
  | finishing => 1
  | done => 0

def Parser.pending (p : Parser F) (t : Thread F) : List (Rating F) :=
  match t.place with
  | .parsing => (p.parseLine t.line).toList
  | .mapping rating => [rating]
  | _ => []

structure ThreadFits (p : Parser F) (eof : Bool) (t : Thread F) : Prop where
  parses : t.place = .parsing → (p.parseLine t.line).isSome
  ended : t.place = .finishing ∨ t.place = .done → eof = true

variable [Fintype I]

def State.distance (s : State I F) : Nat := 3 * (lines s.fin.rest).length + ∑ i, (s.threads i).place.distance

/-- What holds in every run: each rating of the file is added, on its way, or not read yet. -/
structure Fits (p : Parser F) (text : List Char) (s : State I F) : Prop where
  proper : s.fin.Proper
  terminated : Terminated s.fin.rest
  wellFormed : p.WellFormed s.fin.rest
  threads : ∀ i, ThreadFits p s.fin.eof (s.threads i)
  ratings : (p.ratings text : Multiset (Rating F)) =
    s.applied + ∑ i, (p.pending (s.threads i) : Multiset (Rating F)) + p.ratings s.fin.rest
  stored : ∃ n, Stored n s

theorem fits_start {p : Parser F} {text : List Char} {s : State I F} (terminated : Terminated text)
    (wellFormed : p.WellFormed text) (start : AtStart text s) : Fits p text s := by
  have stored := stored_start start
  cases start
  refine ⟨⟨nofun, nofun⟩, terminated, wellFormed, fun _ => ⟨nofun, nofun⟩, ?_, _, stored⟩
  simp [Parser.pending]

theorem ratings_lines {p : Parser F} {text rest line : List Char} (split : lines text = line :: lines rest) :
    p.ratings text = (p.parseLine line).toList ++ p.ratings rest := by
  unfold Parser.ratings
  rw [split, List.filterMap_cons]
  cases p.parseLine line with
  | none => rfl
  | some rating => rfl

theorem Fits.known {p : Parser F} {text : List Char} {s : State I F} (fits : Fits p text s) {r : Rating F}
    (here : r ∈ s.applied ∨ ∃ i, (s.threads i).place = .mapping r) : r ∈ p.ratings text := by
  rw [← Multiset.mem_coe, fits.ratings, Multiset.mem_add, Multiset.mem_add]
  rcases here with added | ⟨i, mapping⟩
  · exact .inl (.inl added)
  · refine .inl (.inr (Multiset.mem_sum.mpr ⟨i, Finset.mem_univ i, ?_⟩))
    unfold Parser.pending
    rw [mapping]
    exact Multiset.mem_singleton_self r

theorem Fits.all_applied [Nonempty I] {p : Parser F} {text : List Char} {s : State I F} (fits : Fits p text s)
    (finished : Finished s) : s.applied.Perm (p.ratings text) := by
  obtain ⟨i⟩ := ‹Nonempty I›
  have idle : ∀ j, p.pending (s.threads j) = [] := by
    intro j
    unfold Parser.pending
    rw [finished j]
  have rest : s.fin.rest = [] := fits.proper.ended ((fits.threads i).ended (.inr (finished i)))
  have all := fits.ratings
  rw [Finset.sum_eq_zero fun j _ => by rw [idle j]; rfl, rest, add_zero] at all
  exact Multiset.coe_eq_coe.mp (all.trans (add_zero _)).symm

variable [DecidableEq I]

theorem ratings_update {p : Parser F} {text : List Char} {s t : State I F} {i : I} {new : Thread F} (fits : Fits p text s)
    (threads : t.threads = Function.update s.threads i new)
    (change : (s.applied ++ (p.pending (s.threads i) ++ p.ratings s.fin.rest)).Perm
      (t.applied ++ (p.pending new ++ p.ratings t.fin.rest))) :
    (p.ratings text : Multiset (Rating F)) =
      t.applied + ∑ i, (p.pending (t.threads i) : Multiset (Rating F)) + p.ratings t.fin.rest := by
  obtain ⟨others, before, after⟩ := sum_moves (fun t : Thread F => (p.pending t : Multiset (Rating F))) s.threads i
  have moved := congrArg (· + others) (Multiset.coe_eq_coe.mpr change)
  simp only [← Multiset.coe_add] at moved
  rw [fits.ratings, before, threads, after]
  calc _ = (s.applied : Multiset (Rating F)) + (p.pending (s.threads i) + p.ratings s.fin.rest) + others := by abel
    _ = _ := by
      rw [moved]
      abel

theorem fits_read {p : Parser F} {text : List Char} {s : State I F} {i : I} (fits : Fits p text s)
    (here : (s.threads i).place = .reading) {line : List Char} {fin : InputStream}
    (got : s.fin.getline (s.threads i).line = (line, fin)) :
    Fits p text { s with fin, threads := Function.update s.threads i { s.threads i with
      place := if fin.eof then .finishing else .parsing, line } } := by
  obtain ⟨proper, terminated, read⟩ := InputStream.getline_terminated fits.proper fits.terminated got
  have stored : ∃ n, Stored n { s with fin, threads := Function.update s.threads i { s.threads i with
      place := if fin.eof then .finishing else .parsing, line } } := by
    obtain ⟨n, stored⟩ := fits.stored
    exact ⟨n, stored.numbers, stored.index, stored.users, stored.rows⟩
  have idle : p.pending (s.threads i) = [] := by
    unfold Parser.pending
    rw [here]
  rcases read with ⟨eof, none, none'⟩ | ⟨good, more, split⟩
  · refine ⟨proper, terminated, ?_, ?_, ratings_update fits rfl ?_, stored⟩
    · dsimp only
      rw [none']
      exact nofun
    · apply forall_update
      · exact fun j => ⟨(fits.threads j).parses, fun _ => eof⟩
      · rw [if_pos eof]
        exact ⟨nofun, fun _ => eof⟩
    · dsimp only
      rw [idle, if_pos eof, none, none']
      rfl
  · have parses : (p.parseLine line).isSome := fits.wellFormed line (by rw [split]; exact List.mem_cons_self)
    have goes : (if fin.eof then Place.finishing else Place.parsing) = (Place.parsing : Place F) := by
      rw [more]
      rfl
    refine ⟨proper, terminated, ?_, ?_, ratings_update fits rfl ?_, stored⟩
    · intro other member
      exact fits.wellFormed other (by rw [split]; exact List.mem_cons_of_mem _ member)
    · apply forall_update
      · intro j
        refine ⟨(fits.threads j).parses, fun ended => ?_⟩
        have eof := (fits.threads j).ended ended
        rw [good] at eof
        cases eof
      · rw [goes]
        exact ⟨fun _ => parses, nofun⟩
    · dsimp only
      rw [idle, goes, ratings_lines split]
      rfl

theorem fits_mapping {p : Parser F} {text : List Char} {s t : State I F} {i : I} {rating : Rating F}
    (fits : Fits p text s) (here : (s.threads i).place = .mapping rating) (taken : p.step s i = some t) :
    Fits p text t := by
  obtain ⟨n, stored⟩ := fits.stored
  obtain ⟨id, number, renamed⟩ := rename_eq stored rating.userId
  unfold Parser.step at taken
  dsimp only at taken
  rw [here] at taken
  dsimp only at taken
  rw [renamed] at taken
  dsimp only at taken
  split at taken
  next inside =>
    cases taken
    refine ⟨fits.proper, fits.terminated, fits.wellFormed, forall_update fits.threads ⟨nofun, nofun⟩,
      ratings_update fits rfl ?_, _, stored_add stored rating inside number rfl rfl rfl rfl⟩
    unfold Parser.pending
    rw [here]
    dsimp only
    rw [List.append_assoc]
    rfl
  next => cases taken

theorem fits_step {p : Parser F} {text : List Char} {s t : State I F} {i : I} (fits : Fits p text s)
    (taken : p.step s i = some t) : Fits p text t := by
  cases here : (s.threads i).place with
  | mapping rating => exact fits_mapping fits here taken
  | reading =>
    unfold Parser.step at taken
    dsimp only at taken
    rw [here] at taken
    cases taken
    exact fits_read fits here rfl
  | parsing =>
    unfold Parser.step at taken
    dsimp only at taken
    rw [here] at taken
    obtain ⟨rating, parsed, same⟩ := Option.map_eq_some_iff.mp taken
    cases same
    obtain ⟨n, stored⟩ := fits.stored
    refine ⟨fits.proper, fits.terminated, fits.wellFormed, forall_update fits.threads ⟨nofun, nofun⟩,
      ratings_update fits rfl ?_, n, stored.numbers, stored.index, stored.users, stored.rows⟩
    unfold Parser.pending
    rw [here]
    dsimp only
    rw [parsed]
    rfl
  | finishing =>
    unfold Parser.step at taken
    dsimp only at taken
    rw [here] at taken
    cases taken
    obtain ⟨n, stored⟩ := fits.stored
    refine ⟨fits.proper, fits.terminated, fits.wellFormed,
      forall_update fits.threads ⟨nofun, fun _ => (fits.threads i).ended (.inl here)⟩,
      ratings_update fits rfl ?_, n, stored.numbers, stored.index, stored.users, stored.rows⟩
    unfold Parser.pending
    rw [here]
  | done =>
    unfold Parser.step at taken
    dsimp only at taken
    rw [here] at taken
    cases taken

theorem fits_reachable {p : Parser F} {text : List Char} {s : State I F} (terminated : Terminated text)
    (wellFormed : p.WellFormed text) (reached : Reachable p.step (AtStart text) anyStep s) : Fits p text s :=
  reached.invariant (fun _ start => fits_start terminated wellFormed start) fun _ _ _ fits _ taken => fits_step fits taken

theorem mapping_goes_on {p : Parser F} {text : List Char} {s : State I F} {i : I} {rating : Rating F}
    (fits : Fits p text s) (few : (users (p.ratings text)).card ≤ numberRows)
    (here : (s.threads i).place = .mapping rating) : (p.step s i).isSome := by
  obtain ⟨n, stored⟩ := fits.stored
  obtain ⟨id, number, renamed⟩ := rename_eq stored rating.userId
  have known : ∀ u ∈ (n.see rating.userId).order, u ∈ users (p.ratings text) := by
    intro u member
    rw [FirstSeen.mem_see, stored.users, mem_users] at member
    rw [mem_users]
    rcases member with ⟨r, added, same⟩ | same
    · exact ⟨r, fits.known (.inl added), same⟩
    · exact ⟨rating, fits.known (.inr ⟨i, here⟩), same.symm⟩
  have inside : id < numberRows :=
    calc id < (n.see rating.userId).order.length := FirstSeen.number_lt number
      _ ≤ (users (p.ratings text)).card := FirstSeen.order_length_le known
      _ ≤ numberRows := few
  unfold Parser.step
  dsimp only
  rw [here]
  dsimp only
  rw [renamed]
  dsimp only
  rw [dif_pos inside]
  rfl

theorem goes_on {p : Parser F} {text : List Char} {s : State I F} {i : I} (fits : Fits p text s)
    (few : (users (p.ratings text)).card ≤ numberRows) (busy : (s.threads i).place ≠ .done) : (p.step s i).isSome := by
  cases here : (s.threads i).place with
  | mapping rating => exact mapping_goes_on fits few here
  | parsing =>
    unfold Parser.step
    dsimp only
    rw [here]
    dsimp only
    rw [Option.isSome_map]
    exact (fits.threads i).parses here
  | reading | finishing =>
    unfold Parser.step
    dsimp only
    rw [here]
    rfl
  | done => exact (busy here).elim

theorem distance_update {s t : State I F} {i : I} {new : Thread F} (threads : t.threads = Function.update s.threads i new)
    (less : 3 * (lines t.fin.rest).length + new.place.distance <
      3 * (lines s.fin.rest).length + (s.threads i).place.distance) : t.distance < s.distance := by
  obtain ⟨others, before, after⟩ := sum_moves (fun t : Thread F => t.place.distance) s.threads i
  rw [State.distance, State.distance, threads, before, after]
  omega

theorem step_lowers {p : Parser F} {text : List Char} {s t : State I F} {i : I} (fits : Fits p text s)
    (taken : p.step s i = some t) : t.distance < s.distance := by
  unfold Parser.step at taken
  dsimp only at taken
  cases here : (s.threads i).place with
  | reading =>
    rw [here] at taken
    cases taken
    apply distance_update rfl
    generalize got : s.fin.getline (s.threads i).line = read
    obtain ⟨line, fin⟩ := read
    obtain ⟨_, _, ended | ⟨_, more, split⟩⟩ := InputStream.getline_terminated fits.proper fits.terminated got
    · obtain ⟨eof, none, none'⟩ := ended
      simp [here, eof, none, none', Place.distance]
    · simp [here, more, split, Place.distance]
      omega
  | parsing =>
    rw [here] at taken
    obtain ⟨rating, _, same⟩ := Option.map_eq_some_iff.mp taken
    cases same
    exact distance_update rfl (by simp [here, Place.distance])
  | mapping rating =>
    rw [here] at taken
    dsimp only at taken
    have fin : (s.rename rating.userId).2.fin = s.fin := by
      unfold State.rename
      split <;> rfl
    have threads : (s.rename rating.userId).2.threads = s.threads := by
      unfold State.rename
      split <;> rfl
    split at taken
    next =>
      cases taken
      apply distance_update (by rw [← threads])
      simp [fin, here, Place.distance]
    next => cases taken
  | finishing =>
    rw [here] at taken
    cases taken
    exact distance_update rfl (by simp [here, Place.distance])
  | done =>
    rw [here] at taken
    cases taken

/-- No run goes on for ever, and each can go on until all threads are done. -/
theorem runs_end {p : Parser F} {text : List Char} (terminated : Terminated text) (wellFormed : p.WellFormed text)
    (few : (users (p.ratings text)).card ≤ numberRows) {s : State I F}
    (reached : Reachable p.step (AtStart text) anyStep s) :
    (∀ labels t, follow p.step s labels = some t → labels.length ≤ s.distance) ∧
    ∃ labels t, follow p.step s labels = some t ∧ Finished t := by
  refine follow_ends State.distance (fun s i t fits taken => ⟨fits_step fits taken, step_lowers fits taken⟩) ?_
    (fits_reachable terminated wellFormed reached)
  intro s fits unfinished
  obtain ⟨i, busy⟩ := not_forall.mp unfinished
  exact ⟨i, goes_on fits few busy⟩

theorem netflix_users_renamed [Nonempty I] (p : Parser F) (text : List Char) (terminated : Terminated text)
    (wellFormed : p.WellFormed text) (few : (users (p.ratings text)).card ≤ numberRows) {s : State I F}
    (reached : Reachable p.step (AtStart text) anyStep s) :
    (∀ i, (s.threads i).place ≠ .done → (p.step s i).isSome) ∧ (Finished s → Renamed (p.ratings text) s) := by
  have fits := fits_reachable terminated wellFormed reached
  refine ⟨fun i busy => goes_on fits few busy, fun finished => ?_⟩
  obtain ⟨n, stored⟩ := fits.stored
  exact renamed_of_stored stored (fits.all_applied finished) few

end Runs

def digits : Parser Nat where
  stringToInt column := Int32.ofNat ((column.headD '0').toNat - 48)
  stringTo column := (column.headD '0').toNat - 48

/-- Two threads meet user 7 at the same time, and it is renamed once. -/
theorem two_users_renamed : ∃ s : State (Fin 2) Nat, Finished s ∧
    s.useridToRealid 7 = some 0 ∧ s.useridToRealid 3 = some 1 ∧
      Renamed (digits.ratings "7,2,5\n7,4,1\n3,2,4\n".toList) s := by
  have ends : (follow digits.step ({ fin := { rest := "7,2,5\n7,4,1\n3,2,4\n".toList } } : State (Fin 2) Nat)
      [0, 1, 0, 1, 1, 0, 0, 0, 0, 0, 1, 0, 1]).map
        (fun s => ((s.threads 0).place, (s.threads 1).place, s.useridToRealid 7, s.useridToRealid 3)) =
      some (.done, .done, some 0, some 1) := by decide
  obtain ⟨s, taken, last⟩ := Option.map_eq_some_iff.mp ends
  simp only [Prod.mk.injEq] at last
  obtain ⟨first, second, seven, three⟩ := last
  have finished : Finished s := Fin.forall_fin_two.mpr ⟨first, second⟩
  have wellFormed : digits.WellFormed "7,2,5\n7,4,1\n3,2,4\n".toList := by
    unfold Parser.WellFormed
    decide
  have few : (users (digits.ratings "7,2,5\n7,4,1\n3,2,4\n".toList)).card ≤ numberRows := by decide
  exact ⟨s, finished, seven, three,
    (netflix_users_renamed digits _ (by decide) wellFormed few (.follow (.start rfl) taken)).2 finished⟩

end NetflixReader

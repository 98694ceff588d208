import Mathlib.Data.List.TakeWhile

/- A text with a null character behind it, which an index runs over and which is
   cut for a while by storing another null character. -/
namespace CString

def nul : Char := '\x00'

/-- The character at an index. The one behind the text is null, and there is none behind that. -/
def charAt (data : List Char) (index : Nat) : Option Char :=
  if index ≤ data.length then some (data.getD index nul) else none

/-- Behind the text only a null character may be stored. -/
def store (data : List Char) (index : Nat) (c : Char) : Option (List Char) :=
  if index < data.length then some (data.set index c)
  else if index = data.length ∧ c = nul then some data
  else none

/-- `while (p(data[index])) index++` -/
def skipWhile (p : Char → Bool) (data : List Char) (index : Nat) : Option Nat :=
  if index ≤ data.length then
    if p (data.getD index nul) then skipWhile p data (index + 1) else some index
  else none
termination_by data.length + 1 - index

/-- What a function of the C library takes for its argument at an index. -/
def string (data : List Char) (index : Nat) : List Char := (data.drop index).takeWhile (· ≠ nul)

variable {p : Char → Bool} {front token rest : List Char}

theorem charAt_drop {data : List Char} {index : Nat} (inside : index ≤ data.length) :
    charAt data index = some ((data.drop index).headD nul) := by
  rw [charAt, if_pos inside, List.headD_eq_head?_getD, List.head?_drop]
  rfl

theorem charAt_split (front rest : List Char) : charAt (front ++ rest) front.length = some (rest.headD nul) := by
  rw [charAt_drop (by simp), List.drop_left]

theorem skipWhile_split (stops : p nul = false) (front rest : List Char) :
    skipWhile p (front ++ rest) front.length = some (front.length + (rest.takeWhile p).length) := by
  induction rest generalizing front with
  | nil =>
    rw [skipWhile, if_pos (by simp)]
    simp [stops]
  | cons c rest ih =>
    have here : (front ++ c :: rest).getD front.length nul = c := by simp
    rw [skipWhile, if_pos (by simp), here]
    split
    next holds =>
      have later := ih (front ++ [c])
      rw [List.append_assoc, List.singleton_append, List.length_append, List.length_singleton] at later
      rw [later, List.takeWhile_cons_of_pos holds, List.length_cons, Nat.add_right_comm, Nat.add_assoc]
    next fails => rw [List.takeWhile_cons_of_neg (by simpa using fails), List.length_nil, Nat.add_zero]

theorem store_behind (free : nul ∉ token) : ∃ c data,
    charAt (front ++ (token ++ rest)) (front.length + token.length) = some c ∧
      store (front ++ (token ++ rest)) (front.length + token.length) nul = some data ∧
      string data front.length = token ∧
      store data (front.length + token.length) c = some (front ++ (token ++ rest)) := by
  have whole : ∀ more : List Char, string (front ++ (token ++ more)) front.length = token ++ more.takeWhile (· ≠ nul) := by
    intro more
    rw [string, List.drop_left, List.takeWhile_append_of_pos]
    intro c member
    apply decide_eq_true
    rintro rfl
    exact free member
  have place : front.length + token.length = (front ++ token).length := List.length_append.symm
  rw [place, ← List.append_assoc]
  refine ⟨rest.headD nul, ?_⟩
  rw [charAt_split]
  cases rest with
  | nil =>
    refine ⟨front ++ token, rfl, ?_, ?_, ?_⟩
    · simp [store]
    · have all := whole []
      rwa [List.append_nil, List.takeWhile_nil, List.append_nil] at all
    · simp [store]
  | cons c rest =>
    refine ⟨(front ++ token) ++ nul :: rest, rfl, ?_, ?_, ?_⟩
    · simp [store]
    · rw [List.append_assoc, whole, List.takeWhile_cons_of_neg (by simp), List.append_nil]
    · simp [store]

end CString

import Cirrus.Lib.CString
import Mathlib

/-
A string that `strncpy` copies into a buffer and `strsep` cuts into tokens
there. What is read behind the last character of the buffer has no value.
Nothing here mentions a particular program.
-/
namespace Strsep
open CString

/-- The `n` characters that are written: a text that ends sooner is followed by null characters. -/
def strncpy : Nat → List Char → List Char
  | 0, _ => []
  | n + 1, [] => nul :: strncpy n []
  | n + 1, c :: rest => if c = nul then nul :: strncpy n [] else c :: strncpy n rest

def copied (n : Nat) (text previous : List Char) : List Char := strncpy n text ++ previous.drop n

/-- The token up to a character of the delimiter or the null character, and what is behind the former. -/
def strsep (delimiter : List Char) : List Char → Option (List Char × Option (List Char))
  | [] => none
  | c :: rest =>
    if c = nul then some ([], none)
    else if c ∈ delimiter then some ([], some rest)
    else (strsep delimiter rest).map fun (token, s) => (c :: token, s)

variable {delimiter : List Char}

theorem strsep_shorter {s token rest : List Char} (cut : strsep delimiter s = some (token, some rest)) :
    rest.length < s.length := by
  induction s generalizing token with
  | nil => cases cut
  | cons c s ih =>
    unfold strsep at cut
    split at cut
    next => cases cut
    next =>
      split at cut
      next =>
        cases cut
        exact Nat.lt_succ_self _
      next =>
        obtain ⟨⟨token', rest'⟩, found, same⟩ := Option.map_eq_some_iff.mp cut
        cases same
        exact Nat.lt_succ_of_lt (ih found)

/-- `while (char* l = strsep(&s, delimiter))`, which a break may end when so many tokens have been visited. -/
def loop (delimiter : List Char) (stop : Nat → Bool) (visited : Nat) (s : List Char) : Option (List (List Char)) :=
  match cut : strsep delimiter s with
  | none => none
  | some (token, none) => some [token]
  | some (token, some rest) =>
    if stop (visited + 1) then some [token] else (loop delimiter stop (visited + 1) rest).map (token :: ·)
termination_by s.length
decreasing_by exact strsep_shorter cut

def longer (c : Char) : List (List Char) → List (List Char)
  | [] => [[c]]
  | token :: more => (c :: token) :: more

variable {stop : Nat → Bool} {visited : Nat} {s : List Char} {tokens : List (List Char)}

theorem loop_past (cut : strsep delimiter s = none) : loop delimiter stop visited s = none := by
  unfold loop
  split <;> simp_all

theorem loop_last {token : List Char} (cut : strsep delimiter s = some (token, none)) :
    loop delimiter stop visited s = some [token] := by
  unfold loop
  split <;> simp_all

theorem loop_next {token rest : List Char} (cut : strsep delimiter s = some (token, some rest)) :
    loop delimiter stop visited s =
      if stop (visited + 1) then some [token] else (loop delimiter stop (visited + 1) rest).map (token :: ·) := by
  rw [loop]
  split <;> simp_all

@[simp] theorem loop_nil : loop delimiter stop visited [] = none := loop_past rfl

@[simp] theorem loop_nul (rest : List Char) : loop delimiter stop visited (nul :: rest) = some [[]] :=
  loop_last (if_pos rfl)

theorem loop_delimiter {c : Char} (other : c ≠ nul) (separates : c ∈ delimiter) (rest : List Char) :
    loop delimiter stop visited (c :: rest) =
      if stop (visited + 1) then some [[]] else (loop delimiter stop (visited + 1) rest).map ([] :: ·) :=
  loop_next (by rw [strsep, if_neg other, if_pos separates])

theorem loop_inside {c : Char} (other : c ≠ nul) (inside : c ∉ delimiter) (rest : List Char) :
    loop delimiter stop visited (c :: rest) = (loop delimiter stop visited rest).map (longer c) := by
  have cut : strsep delimiter (c :: rest) = (strsep delimiter rest).map fun (token, s) => (c :: token, s) := by
    rw [strsep, if_neg other, if_neg inside]
  cases found : strsep delimiter rest with
  | none =>
    rw [found] at cut
    rw [loop_past found, loop_past cut]
    rfl
  | some first =>
    obtain ⟨token, behind⟩ := first
    rw [found] at cut
    cases behind with
    | none =>
      rw [loop_last found, loop_last cut]
      rfl
    | some more =>
      rw [loop_next found, loop_next cut]
      split
      · rfl
      · rw [Option.map_map]
        rfl

theorem loop_cons (c : Char) (rest : List Char) :
    loop delimiter stop visited (c :: rest) =
      if c = nul then some [[]]
      else if c ∈ delimiter then
        if stop (visited + 1) then some [[]] else (loop delimiter stop (visited + 1) rest).map ([] :: ·)
      else (loop delimiter stop visited rest).map (longer c) := by
  split
  next here =>
    rw [here]
    exact loop_nul rest
  next other =>
    split
    next separates => exact loop_delimiter other separates rest
    next inside => exact loop_inside other inside rest

/-- The characters of the tokens, and the one behind each. -/
def extent (tokens : List (List Char)) : Nat := (tokens.map fun token => token.length + 1).sum

@[simp] theorem extent_nil : extent [] = 0 := rfl

@[simp] theorem extent_cons (token : List Char) (more : List (List Char)) :
    extent (token :: more) = token.length + 1 + extent more := rfl

theorem length_le_extent (tokens : List (List Char)) : tokens.length ≤ extent tokens := by
  induction tokens with
  | nil => exact Nat.le_refl _
  | cons token more ih =>
    rw [extent_cons, List.length_cons]
    omega

theorem extent_succ {tokens : List (List Char)} (some_token : tokens ≠ []) : ∃ n, extent tokens = n + 1 := by
  cases tokens with
  | nil => exact (some_token rfl).elim
  | cons token more => exact ⟨token.length + extent more, by simp; omega⟩

theorem longer_extent (c : Char) {tokens : List (List Char)} (some_token : tokens ≠ []) :
    extent (longer c tokens) = extent tokens + 1 := by
  cases tokens with
  | nil => exact (some_token rfl).elim
  | cons token more =>
    simp only [longer, extent_cons, List.length_cons]
    omega

theorem nul_longer (c : Char) {tokens : List (List Char)} (some_token : tokens ≠ []) :
    (∀ token ∈ longer c tokens, nul ∉ token) ↔ c ≠ nul ∧ ∀ token ∈ tokens, nul ∉ token := by
  cases tokens with
  | nil => exact (some_token rfl).elim
  | cons token more =>
    rw [longer, List.forall_mem_cons, List.forall_mem_cons, List.mem_cons, not_or, and_assoc, ne_comm]

/-- The tokens are without null characters, and the last is behind no more than the buffer has. There a
character of the delimiter or a null character ended it. -/
theorem loop_some (found : loop delimiter stop visited s = some tokens) :
    tokens ≠ [] ∧ (∀ token ∈ tokens, nul ∉ token) ∧
      ∃ c, s[extent tokens - 1]? = some c ∧ (c = nul ∨ c ∈ delimiter) := by
  induction s generalizing visited tokens with
  | nil => simp at found
  | cons c rest ih =>
    rw [loop_cons] at found
    split at found
    next here =>
      cases found
      simp [here]
    next other =>
      split at found
      next separates =>
        split at found
        next =>
          cases found
          simp [separates]
        next =>
          obtain ⟨more, later, same⟩ := Option.map_eq_some_iff.mp found
          cases same
          obtain ⟨some_token, clean, last, at_last, ends⟩ := ih later
          refine ⟨List.cons_ne_nil _ _, by simpa using clean, last, ?_, ends⟩
          obtain ⟨n, size⟩ := extent_succ some_token
          rw [size] at at_last
          simpa [size] using at_last
      next inside =>
        obtain ⟨more, later, same⟩ := Option.map_eq_some_iff.mp found
        cases same
        obtain ⟨some_token, clean, last, at_last, ends⟩ := ih later
        refine ⟨?_, (nul_longer c some_token).mpr ⟨other, clean⟩, last, ?_, ends⟩
        · cases more <;> exact List.cons_ne_nil _ _
        · obtain ⟨n, size⟩ := extent_succ some_token
          rw [size] at at_last
          simpa [longer_extent c some_token, size] using at_last

def upTo (stop : Nat → Bool) : Nat → List (List Char) → List (List Char)
  | _, [] => []
  | visited, token :: more => if stop (visited + 1) then [token] else token :: upTo stop (visited + 1) more

theorem upTo_longer (c : Char) {tokens : List (List Char)} (some_token : tokens ≠ []) :
    upTo stop visited (longer c tokens) = longer c (upTo stop visited tokens) := by
  cases tokens with
  | nil => exact (some_token rfl).elim
  | cons token more =>
    rw [longer, upTo, upTo]
    split <;> rfl

theorem upTo_never (visited : Nat) (tokens : List (List Char)) : upTo (fun _ => false) visited tokens = tokens := by
  induction tokens generalizing visited with
  | nil => rfl
  | cons token more ih => simp [upTo, ih]

theorem upTo_sublist (tokens : List (List Char)) : (upTo stop visited tokens).Sublist tokens := by
  induction tokens generalizing visited with
  | nil => exact .slnil
  | cons token more ih =>
    unfold upTo
    split
    · simp
    · exact ih.cons_cons token

theorem upTo_extent (stop : Nat → Bool) (visited : Nat) (tokens : List (List Char)) :
    extent (upTo stop visited tokens) ≤ extent tokens := by
  induction tokens generalizing visited with
  | nil => exact Nat.le_refl _
  | cons token more ih =>
    have later := ih (visited + 1)
    unfold upTo
    split <;> simp only [extent_cons, extent_nil] <;> omega

theorem upTo_limit {limit : Nat} (below : limit = 0 ∨ visited < limit) (tokens : List (List Char)) :
    upTo (fun k => limit ≠ 0 ∧ k = limit) visited tokens = if limit = 0 then tokens else tokens.take (limit - visited) := by
  induction tokens generalizing visited with
  | nil => simp [upTo]
  | cons token more ih =>
    unfold upTo
    by_cases none : limit = 0
    · simp [none, upTo_never]
    · obtain ⟨rest, left⟩ : ∃ rest, limit - visited = rest + 1 := ⟨limit - visited - 1, by omega⟩
      by_cases last : visited + 1 = limit
      · have zero : rest = 0 := by omega
        simp [none, last, left, zero]
      · have later := @ih (visited + 1) (.inr (by omega))
        rw [if_neg none, show limit - (visited + 1) = rest by omega] at later
        simp only [none, last, left, ne_eq, not_false_eq_true, true_and, decide_false, Bool.false_eq_true, if_false,
          List.take_succ_cons] at later ⊢
        rw [later]

theorem strncpy_length (n : Nat) (text : List Char) : (strncpy n text).length = n := by
  induction n generalizing text with
  | zero => rfl
  | succ n ih =>
    cases text with
    | nil => simp [strncpy, ih]
    | cons c rest =>
      unfold strncpy
      split <;> simp [ih]

theorem strncpy_nul {n : Nat} {text : List Char} (room : text.length ≤ n) :
    strncpy n text ++ [nul] = strncpy (n + 1) text := by
  induction n generalizing text with
  | zero =>
    cases List.eq_nil_of_length_eq_zero (Nat.le_zero.mp room)
    rfl
  | succ n ih =>
    cases text with
    | nil => simpa [strncpy] using @ih [] (Nat.zero_le n)
    | cons c rest =>
      rw [strncpy, strncpy]
      split
      next => simpa [strncpy] using @ih [] (Nat.zero_le n)
      next => simpa using @ih rest (by simpa using room)

end Strsep

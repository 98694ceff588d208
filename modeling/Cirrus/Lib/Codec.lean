import Mathlib

/- Values stored in and loaded from memory, at a fixed size each, and programs that read a memory
   from its front. Reading past the end of a memory is undefined. -/

/-- How a run goes wrong: a failed assertion, a thrown exception, or undefined behaviour. -/
inductive Fault
  | assertion (text : String)
  | exception (what : String)
  | undefined
  deriving DecidableEq, Repr

structure Codec (B α : Type) (size : Nat) where
  put : α → List B
  get : List B → α
  put_length : ∀ a, (put a).length = size
  get_put : ∀ a, get (put a) = a

attribute [simp] Codec.put_length Codec.get_put

/-- A program that takes values off the front of a memory and leaves the rest of it. -/
def Decoder (B α : Type) := List B → Except Fault (α × List B)

namespace Codec
variable {B α β : Type} {size : Nat}

def along (c : Codec B α size) (e : β ≃ α) : Codec B β size where
  put b := c.put (e b)
  get bytes := e.symm (c.get bytes)
  put_length b := c.put_length (e b)
  get_put b := by simp

def load (c : Codec B α size) : Decoder B α := fun memory =>
  if size ≤ memory.length then .ok (c.get (memory.take size), memory.drop size)
  else .error .undefined

theorem load_enough (c : Codec B α size) {memory : List B} (fits : size ≤ memory.length) :
    c.load memory = .ok (c.get (memory.take size), memory.drop size) := if_pos fits

@[simp] theorem load_put (c : Codec B α size) (a : α) (rest : List B) :
    c.load (c.put a ++ rest) = .ok (a, rest) := by
  have fits : size ≤ (c.put a ++ rest).length := by simp
  have front : (c.put a ++ rest).take size = c.put a := List.take_left' (c.put_length a)
  have back : (c.put a ++ rest).drop size = rest := List.drop_left' (c.put_length a)
  rw [load, if_pos fits, front, back, c.get_put]

/-- The low `size` bytes of a number, the lowest first. -/
def digits : Nat → Nat → List UInt8
  | 0, _ => []
  | size + 1, n => UInt8.ofNat (n % 256) :: digits size (n / 256)

def ofDigits : List UInt8 → Nat
  | [] => 0
  | byte :: rest => byte.toNat + 256 * ofDigits rest

theorem digits_length (size n : Nat) : (digits size n).length = size := by
  induction size generalizing n with
  | zero => rfl
  | succ size ih => rw [digits, List.length_cons, ih]

theorem ofDigits_digits (size n : Nat) (small : n < 256 ^ size) : ofDigits (digits size n) = n := by
  induction size generalizing n with
  | zero =>
    rw [Nat.pow_zero] at small
    exact (Nat.lt_one_iff.mp small).symm
  | succ size ih =>
    have quotient : n / 256 < 256 ^ size := Nat.div_lt_of_lt_mul (by rwa [← Nat.pow_succ'])
    have byte : (UInt8.ofNat (n % 256)).toNat = n % 256 :=
      UInt8.toNat_ofNat_of_lt' (Nat.mod_lt n (by decide))
    rw [digits, ofDigits, ih _ quotient, byte]
    exact Nat.mod_add_div n 256

def littleEndian (size : Nat) (toNat : α → Nat) (ofNat : Nat → α) (back : ∀ a, ofNat (toNat a) = a)
    (small : ∀ a, toNat a < 256 ^ size) : Codec UInt8 α size where
  put a := digits size (toNat a)
  get bytes := ofNat (ofDigits bytes)
  put_length a := digits_length size (toNat a)
  get_put a := by rw [ofDigits_digits size _ (small a), back]

theorem ofDigits_lt (bytes : List UInt8) : ofDigits bytes < 256 ^ bytes.length := by
  induction bytes with
  | nil => exact Nat.one_pos
  | cons byte rest ih =>
    have small := byte.toNat_lt
    rw [ofDigits, List.length_cons, Nat.pow_succ]
    omega

theorem digits_ofDigits (bytes : List UInt8) : digits bytes.length (ofDigits bytes) = bytes := by
  induction bytes with
  | nil => rfl
  | cons byte rest ih =>
    have small := byte.toNat_lt
    have low : (byte.toNat + 256 * ofDigits rest) % 256 = byte.toNat := by omega
    have high : (byte.toNat + 256 * ofDigits rest) / 256 = ofDigits rest := by omega
    rw [List.length_cons, ofDigits, digits, low, high, ih, UInt8.ofNat_toNat]

/-- Any cells of this number are the layout of a value. -/
def Full (c : Codec B α size) : Prop := ∀ cells : List B, cells.length = size → c.put (c.get cells) = cells

theorem Full.along {c : Codec B α size} (full : c.Full) (e : β ≃ α) : (c.along e).Full := by
  intro cells length
  change c.put (e (e.symm (c.get cells))) = cells
  rw [e.apply_symm_apply, full cells length]

theorem littleEndian_full {toNat : α → Nat} {ofNat : Nat → α} (back : ∀ a, ofNat (toNat a) = a)
    (small : ∀ a, toNat a < 256 ^ size) (onto : ∀ n < 256 ^ size, toNat (ofNat n) = n) :
    (littleEndian size toNat ofNat back small).Full := by
  rintro cells rfl
  change digits cells.length (toNat (ofNat (ofDigits cells))) = cells
  rw [onto _ (ofDigits_lt cells), digits_ofDigits]

theorem Full.load {c : Codec B α size} (full : c.Full) {memory rest : List B} {a : α}
    (done : c.load memory = .ok (a, rest)) : memory = c.put a ++ rest := by
  rw [Codec.load] at done
  split at done
  next fits =>
    cases done
    rw [full _ (List.length_take_of_le fits), List.take_append_drop]
  next => cases done

theorem flatMap_put_length (c : Codec B α size) (values : List α) :
    (values.flatMap c.put).length = size * values.length := by
  induction values with
  | nil => simp
  | cons a rest ih => simp [ih, Nat.mul_add, Nat.add_comm]

end Codec

namespace Decoder
variable {B α β : Type}

instance : Monad (Decoder B) where
  pure a := fun memory => .ok (a, memory)
  bind d f := fun memory =>
    match d memory with
    | .ok (a, rest) => f a rest
    | .error fault => .error fault

def lift (result : Except Fault α) : Decoder B α := fun memory => result.map (·, memory)

def fail (fault : Fault) : Decoder B α := fun _ => .error fault

def check (ok : Prop) [Decidable ok] (fault : Fault) : Decoder B Unit :=
  if ok then pure () else fail fault

/-- A loop that decodes one value in each of the `n` rounds from round `i` on. -/
def rounds (d : Nat → Decoder B α) : Nat → Nat → Decoder B (List α)
  | _, 0 => pure []
  | i, n + 1 => do
    let a ← d i
    let rest ← rounds d (i + 1) n
    pure (a :: rest)

@[simp] theorem pure_apply (a : α) (memory : List B) :
    (pure a : Decoder B α) memory = .ok (a, memory) := rfl

theorem bind_apply (d : Decoder B α) (f : α → Decoder B β) (memory : List B) :
    (d >>= f) memory = match d memory with
      | .ok (a, rest) => f a rest
      | .error fault => .error fault := rfl

theorem bind_ok {d : Decoder B α} {f : α → Decoder B β} {memory rest : List B} {a : α}
    (done : d memory = .ok (a, rest)) : (d >>= f) memory = f a rest := by
  rw [bind_apply, done]

theorem ok_of_bind {d : Decoder B α} {f : α → Decoder B β} {memory rest : List B} {b : β}
    (done : (d >>= f) memory = .ok (b, rest)) : ∃ a mid, d memory = .ok (a, mid) ∧ f a mid = .ok (b, rest) := by
  rw [bind_apply] at done
  cases first : d memory with
  | error fault =>
    rw [first] at done
    cases done
  | ok pair =>
    rw [first] at done
    exact ⟨pair.1, pair.2, rfl, done⟩

theorem rounds_ok {d : Nat → Decoder B α} {P : α → Prop}
    (each : ∀ i memory a rest, d i memory = .ok (a, rest) → P a) {i n : Nat} {memory rest : List B} {values : List α}
    (done : rounds d i n memory = .ok (values, rest)) : values.length = n ∧ ∀ a ∈ values, P a := by
  induction n generalizing i memory values with
  | zero =>
    cases done
    exact ⟨rfl, nofun⟩
  | succ n ih =>
    obtain ⟨a, mid, first, done⟩ := ok_of_bind done
    obtain ⟨others, last, tail, done⟩ := ok_of_bind done
    cases done
    obtain ⟨length, holds⟩ := ih tail
    exact ⟨by rw [List.length_cons, length], List.forall_mem_cons.mpr ⟨each i memory a mid first, holds⟩⟩

theorem foldlM_apply (turn : β → α → Decoder B β) (l : List α) (b : β) (memory : List B) :
    l.foldlM turn b memory = l.foldlM (fun p a => turn p.1 a p.2) (b, memory) := by
  induction l generalizing b memory with
  | nil => rfl
  | cons a rest ih =>
    rw [List.foldlM_cons, List.foldlM_cons, bind_apply]
    cases turn b a memory with
    | ok p => exact ih p.1 p.2
    | error fault => rfl

theorem foldlM_push (d : Nat → Decoder B α) (i n : Nat) (values : List α) (memory : List B) :
    (List.range' i n).foldlM (fun (values : List α) k => d k >>= fun a => (pure (values ++ [a]) : Decoder B (List α)))
      values memory = (rounds d i n memory).map fun p => (values ++ p.1, p.2) := by
  induction n generalizing i values memory with
  | zero =>
    rw [rounds, pure_apply]
    simp [Except.map]
  | succ n ih =>
    rw [List.range'_succ, List.foldlM_cons, rounds, bind_apply, bind_apply, bind_apply]
    cases d i memory with
    | error fault => rfl
    | ok p =>
      dsimp only [pure_apply]
      rw [ih, bind_apply]
      cases rounds d (i + 1) n p.2 with
      | error fault => rfl
      | ok q => simp [Except.map]

theorem bind_error {d : Decoder B α} {f : α → Decoder B β} {memory : List B} {fault : Fault}
    (failed : d memory = .error fault) : (d >>= f) memory = .error fault := by
  rw [bind_apply, failed]

theorem check_pos {ok : Prop} [Decidable ok] (holds : ok) (fault : Fault) :
    (check ok fault : Decoder B Unit) = pure () := if_pos holds

theorem check_neg {ok : Prop} [Decidable ok] (fails : ¬ ok) (fault : Fault) :
    (check ok fault : Decoder B Unit) = fail fault := if_neg fails

theorem ok_of_check {ok : Prop} [Decidable ok] {fault : Fault} {memory rest : List B} {u : Unit}
    (done : (check ok fault : Decoder B Unit) memory = .ok (u, rest)) : ok := by
  by_contra fails
  rw [check_neg fails] at done
  cases done

theorem ok_of_lift {result : Except Fault α} {memory rest : List B} {a : α}
    (done : (lift result : Decoder B α) memory = .ok (a, rest)) : result = .ok a := by
  cases result with
  | ok b =>
    cases done
    rfl
  | error fault => cases done

section Exact

/-- The program takes exactly these cells off any memory they are the front of. -/
def Decodes (d : Decoder B α) (cells : List B) (a : α) : Prop :=
  ∀ rest, d (cells ++ rest) = .ok (a, rest)

theorem Decodes.load {size : Nat} (c : Codec B α size) (a : α) : Decodes c.load (c.put a) a :=
  c.load_put a

theorem Decodes.pure (a : α) : Decodes (pure a : Decoder B α) [] a := fun _ => rfl

theorem Decodes.bind {d : Decoder B α} {f : α → Decoder B β} {front back : List B} {a : α} {b : β}
    (first : Decodes d front a) (next : Decodes (f a) back b) :
    Decodes (d >>= f) (front ++ back) b := by
  intro rest
  rw [List.append_assoc, bind_ok (first (back ++ rest))]
  exact next rest

theorem Decodes.skip {d : Decoder B α} {f : α → Decoder B β} {cells : List B} {a : α} {b : β}
    (first : Decodes d [] a) (next : Decodes (f a) cells b) : Decodes (d >>= f) cells b :=
  first.bind next

theorem Decodes.last {d : Decoder B α} {f : α → β} {cells : List B} {a : α}
    (only : Decodes d cells a) : Decodes (do let a ← d; Pure.pure (f a)) cells (f a) := by
  rw [← List.append_nil cells]
  exact only.bind (.pure (f a))

theorem Decodes.check {ok : Prop} [Decidable ok] (holds : ok) (fault : Fault) :
    Decodes (check ok fault : Decoder B Unit) [] () := by
  rw [check_pos holds]
  exact .pure ()

theorem Decodes.rounds_map {d : Nat → Decoder B α} {put : β → List B} {f : β → α} (i : Nat) (values : List β)
    (each : ∀ k b, k < i + values.length → b ∈ values → Decodes (d k) (put b) (f b)) :
    Decodes (rounds d i values.length) (values.flatMap put) (values.map f) := by
  induction values generalizing i with
  | nil => exact .pure []
  | cons b rest ih =>
    rw [List.length_cons] at each
    have head := each i b (by omega) List.mem_cons_self
    have tail := ih (i + 1) fun k c below member =>
      each k c (by omega) (List.mem_cons_of_mem b member)
    exact head.bind tail.last

theorem Decodes.rounds {d : Nat → Decoder B α} {put : α → List B} (i : Nat) (values : List α)
    (each : ∀ k a, k < i + values.length → a ∈ values → Decodes (d k) (put a) a) :
    Decodes (rounds d i values.length) (values.flatMap put) values := by
  have decodes := Decodes.rounds_map (f := id) i values each
  rwa [List.map_id] at decodes

theorem Decodes.rows {d : Decoder B α} {put : α → List B} (each : ∀ a, Decodes d (put a) a) (k : Nat) {n : Nat}
    {values : List α} (size : values.length = n * k) (i : Nat) :
    ∃ rows, rows.flatten = values ∧
      Decodes (Decoder.rounds (fun _ => Decoder.rounds (fun _ => d) 0 k) i n) (values.flatMap put) rows := by
  induction n generalizing values i with
  | zero =>
    rw [Nat.zero_mul, List.length_eq_zero_iff] at size
    subst size
    exact ⟨[], rfl, .pure []⟩
  | succ n ih =>
    rw [Nat.succ_mul] at size
    have first : (values.take k).length = k := List.length_take_of_le (by omega)
    have others : (values.drop k).length = n * k := by
      rw [List.length_drop]
      omega
    obtain ⟨rows, whole, others⟩ := ih others (i + 1)
    have row := Decodes.rounds 0 (values.take k) fun _ a _ _ => each a
    rw [first] at row
    refine ⟨values.take k :: rows, ?_, ?_⟩
    · rw [List.flatten_cons, whole, List.take_append_drop]
    · rw [← List.take_append_drop k values, List.flatMap_append, List.take_append_drop]
      exact row.bind others.last

end Exact

/-- What the program takes off a memory is the layout of what it makes of it. -/
def Rewrites (d : Decoder B α) (put : α → List B) : Prop :=
  ∀ memory a rest, d memory = .ok (a, rest) → memory = put a ++ rest

theorem Rewrites.rounds {d : Nat → Decoder B α} {put : α → List B} (each : ∀ i, Rewrites (d i) put) {i n : Nat}
    {memory rest : List B} {values : List α} (done : rounds d i n memory = .ok (values, rest)) :
    memory = values.flatMap put ++ rest := by
  induction n generalizing i memory values with
  | zero =>
    cases done
    rfl
  | succ n ih =>
    obtain ⟨a, mid, first, done⟩ := ok_of_bind done
    obtain ⟨others, last, tail, done⟩ := ok_of_bind done
    cases done
    rw [each i memory a mid first, ih tail, List.flatMap_cons, List.append_assoc]

section Bounded

/-- What the program does on this memory, it does on any longer one. -/
def Inside (d : Decoder B α) (memory : List B) : Prop :=
  ∀ more, d (memory ++ more) = (d memory).map fun p => (p.1, p.2 ++ more)

theorem Inside.bind {d : Decoder B α} {f : α → Decoder B β} {memory : List B}
    (first : Inside d memory) (next : ∀ a rest, d memory = .ok (a, rest) → Inside (f a) rest) :
    Inside (d >>= f) memory := by
  intro more
  rw [bind_apply, bind_apply, first more]
  cases here : d memory with
  | ok p => exact next p.1 p.2 here more
  | error fault => rfl

theorem Inside.lift (result : Except Fault α) (memory : List B) :
    Inside (lift result : Decoder B α) memory := by
  intro more
  cases result <;> rfl

theorem Inside.check (ok : Prop) [Decidable ok] (fault : Fault) (memory : List B) :
    Inside (check ok fault : Decoder B Unit) memory := by
  intro more
  rw [Decoder.check]
  split <;> rfl

/-- The program looks at no more than `size` cells, and takes all of these off if it succeeds. -/
structure Within (d : Decoder B α) (size : Nat) : Prop where
  inside : ∀ memory, size ≤ memory.length → Inside d memory
  takes : ∀ {memory a rest}, d memory = .ok (a, rest) → size ≤ memory.length ∧ rest = memory.drop size

theorem Within.pure (a : α) : Within (pure a : Decoder B α) 0 where
  inside _ _ _ := rfl
  takes done := by
    cases done
    exact ⟨Nat.zero_le _, rfl⟩

theorem Within.lift (result : Except Fault α) : Within (lift result : Decoder B α) 0 where
  inside memory _ := .lift result memory
  takes done := by
    cases result with
    | ok a =>
      cases done
      exact ⟨Nat.zero_le _, rfl⟩
    | error fault => cases done

theorem Within.check (ok : Prop) [Decidable ok] (fault : Fault) :
    Within (check ok fault : Decoder B Unit) 0 := by
  rw [Decoder.check]
  split
  · exact .pure ()
  · exact .lift (.error fault)

theorem Within.load {size : Nat} (c : Codec B α size) : Within c.load size where
  inside memory fits more := by
    have longer : size ≤ (memory ++ more).length := by simp; omega
    rw [Codec.load, Codec.load, if_pos fits, if_pos longer, List.take_append_of_le_length fits,
      List.drop_append_of_le_length fits]
    rfl
  takes {memory a rest} done := by
    rw [Codec.load] at done
    split at done
    · cases done
      exact ⟨by assumption, rfl⟩
    · cases done

theorem Within.bind {d : Decoder B α} {f : α → Decoder B β} {first next : Nat}
    (within : Within d first) (within' : ∀ a, Within (f a) next) :
    Within (d >>= f) (first + next) where
  inside memory fits := by
    apply (within.inside memory (by omega)).bind
    intro a rest done
    obtain ⟨_, rfl⟩ := within.takes done
    exact (within' a).inside _ (by rw [List.length_drop]; omega)
  takes {memory b rest} done := by
    rw [bind_apply] at done
    cases here : d memory with
    | error fault =>
      rw [here] at done
      cases done
    | ok p =>
      rw [here] at done
      obtain ⟨fits, front⟩ := within.takes here
      obtain ⟨fits', back⟩ := (within' p.1).takes done
      rw [front, List.length_drop] at fits'
      exact ⟨by omega, by rw [back, front, List.drop_drop]⟩

theorem Within.rounds {d : Nat → Decoder B α} {size : Nat} (each : ∀ i, Within (d i) size)
    (i n : Nat) : Within (rounds d i n) (size * n) := by
  induction n generalizing i with
  | zero => exact .pure []
  | succ n ih =>
    have total : size * (n + 1) = size + (size * n + 0) := by
      rw [Nat.mul_succ]
      omega
    rw [total]
    exact (each i).bind fun a => (ih (i + 1)).bind fun rest => .pure (a :: rest)

theorem Within.foldlM {turn : β → α → Decoder B β} {size : Nat} (each : ∀ b a, Within (turn b a) size) (l : List α) (b : β) :
    Within (l.foldlM turn b) (size * l.length) := by
  induction l generalizing b with
  | nil => exact .pure b
  | cons a rest ih =>
    have total : size * (a :: rest).length = size + size * rest.length := by
      rw [List.length_cons, Nat.mul_succ, Nat.add_comm]
    rw [List.foldlM_cons, total]
    exact (each b a).bind ih

theorem Inside.load_bind {size : Nat} (c : Codec B α size) {f : α → Decoder B β} {memory : List B}
    (fits : size ≤ memory.length) (next : Inside (f (c.get (memory.take size))) (memory.drop size)) :
    Inside (c.load >>= f) memory := by
  apply ((Within.load c).inside memory fits).bind
  intro a rest done
  rw [c.load_enough fits] at done
  cases done
  exact next

theorem Inside.check_bind {ok : Prop} [Decidable ok] {fault : Fault} {f : Unit → Decoder B β}
    {memory : List B} (next : ok → Inside (f ()) memory) :
    Inside (Decoder.check ok fault >>= f) memory := by
  apply (Inside.check ok fault memory).bind
  intro u rest done
  rw [Decoder.check] at done
  split at done
  · cases done
    exact next (by assumption)
  · cases done

theorem Inside.step {d : Decoder B α} {f : α → Decoder B β} {memory : List B} {size : Nat}
    (within : Within d size) (fits : size ≤ memory.length)
    (next : ∀ a, d memory = .ok (a, memory.drop size) → Inside (f a) (memory.drop size)) :
    Inside (d >>= f) memory := by
  apply (within.inside memory fits).bind
  intro a rest done
  obtain ⟨_, rfl⟩ := within.takes done
  exact next a done

/-- The program reads `size` cells, whatever they hold. -/
def Reads (d : Decoder B α) (size : Nat) : Prop :=
  ∀ memory, if size ≤ memory.length then ∃ a, d memory = .ok (a, memory.drop size)
    else d memory = .error .undefined

theorem Reads.enough {d : Decoder B α} {size : Nat} (reads : Reads d size) {memory : List B}
    (fits : size ≤ memory.length) : ∃ a, d memory = .ok (a, memory.drop size) := by
  have here := reads memory
  rwa [if_pos fits] at here

theorem Reads.short {d : Decoder B α} {size : Nat} (reads : Reads d size) {memory : List B}
    (short : memory.length < size) : d memory = .error .undefined := by
  have here := reads memory
  rwa [if_neg (by omega)] at here

theorem Reads.pure (a : α) : Reads (pure a : Decoder B α) 0 := by
  intro memory
  rw [if_pos (Nat.zero_le _)]
  exact ⟨a, rfl⟩

theorem Reads.load {size : Nat} (c : Codec B α size) : Reads c.load size := by
  intro memory
  rw [Codec.load]
  split
  · exact ⟨_, rfl⟩
  · rfl

theorem Reads.bind {d : Decoder B α} {f : α → Decoder B β} {first next : Nat}
    (reads : Reads d first) (reads' : ∀ a, Reads (f a) next) : Reads (d >>= f) (first + next) := by
  intro memory
  rcases Nat.lt_or_ge memory.length first with short | fits
  · rw [if_neg (by omega), bind_error (reads.short short)]
  · obtain ⟨a, done⟩ := reads.enough fits
    have rest := reads' a (memory.drop first)
    rw [List.length_drop, List.drop_drop] at rest
    rw [bind_ok done]
    rcases Nat.lt_or_ge memory.length (first + next) with short | fits'
    · rw [if_neg (by omega)] at rest ⊢
      exact rest
    · rw [if_pos (by omega)] at rest ⊢
      exact rest

theorem Reads.rounds {d : Nat → Decoder B α} {size : Nat} (i n : Nat)
    (reads : ∀ k < i + n, Reads (d k) size) : Reads (rounds d i n) (size * n) := by
  induction n generalizing i with
  | zero => exact .pure []
  | succ n ih =>
    have tail := ih (i + 1) fun k below => reads k (by omega)
    have total : size * (n + 1) = size + (size * n + 0) := by
      rw [Nat.mul_succ]
      omega
    rw [total]
    exact (reads i (by omega)).bind fun a => tail.bind fun rest => .pure (a :: rest)

/-- The program does not run off the end of this memory. -/
def Defined (d : Decoder B α) (memory : List B) : Prop := d memory ≠ .error .undefined

theorem defined_pure (a : α) (memory : List B) : Defined (Pure.pure a : Decoder B α) memory := nofun

theorem defined_load_bind {size : Nat} (c : Codec B α size) {f : α → Decoder B β} {memory : List B} :
    Defined (c.load >>= f) memory ↔
      size ≤ memory.length ∧ Defined (f (c.get (memory.take size))) (memory.drop size) := by
  rcases Nat.lt_or_ge memory.length size with short | fits
  · have stopped : (c.load >>= f) memory = .error .undefined :=
      bind_error ((Reads.load c).short short)
    exact ⟨fun defined => (defined stopped).elim, fun h => by omega⟩
  · rw [Defined, bind_ok (c.load_enough fits), Defined]
    exact ⟨fun defined => ⟨fits, defined⟩, fun h => h.2⟩

theorem defined_check_bind {ok : Prop} [Decidable ok] {fault : Fault} {f : Unit → Decoder B β}
    {memory : List B} (other : fault ≠ .undefined) :
    Defined (check ok fault >>= f) memory ↔ (ok → Defined (f ()) memory) := by
  rcases Decidable.em ok with holds | fails
  · rw [check_pos holds]
    exact ⟨fun defined _ => defined, fun next => next holds⟩
  · rw [check_neg fails]
    refine ⟨fun _ holds => (fails holds).elim, fun _ same => ?_⟩
    cases same
    exact other rfl

theorem Reads.defined_bind {d : Decoder B α} {f : α → Decoder B β} {size : Nat} {memory : List B}
    {P : Prop} (reads : Reads d size) (next : ∀ a, Defined (f a) (memory.drop size) ↔ P) :
    Defined (d >>= f) memory ↔ size ≤ memory.length ∧ P := by
  rcases Nat.lt_or_ge memory.length size with short | fits
  · have stopped : (d >>= f) memory = .error .undefined := bind_error (reads.short short)
    exact ⟨fun defined => (defined stopped).elim, fun h => by omega⟩
  · obtain ⟨a, done⟩ := reads.enough fits
    rw [Defined, bind_ok done]
    exact ⟨fun defined => ⟨fits, (next a).mp defined⟩, fun h => (next a).mpr h.2⟩

theorem rounds_stuck {d : Nat → Decoder B α} {size stop : Nat} (reads : ∀ k < stop, Reads (d k) size)
    (stuck : ∀ memory, d stop memory = .error .undefined) (i n : Nat) (before : i ≤ stop)
    (reached : stop < i + n) (memory : List B) : rounds d i n memory = .error .undefined := by
  induction n generalizing i memory with
  | zero => omega
  | succ n ih =>
    rw [rounds]
    rcases Nat.lt_or_eq_of_le before with earlier | rfl
    · rcases Nat.lt_or_ge memory.length size with short | fits
      · exact bind_error ((reads i earlier).short short)
      · obtain ⟨a, done⟩ := (reads i earlier).enough fits
        rw [bind_ok done]
        exact bind_error (ih (i + 1) earlier (by omega) _)
    · exact bind_error (stuck memory)

end Bounded

end Decoder

import Cirrus.ServerInterface
import Cirrus.Lib.Sends

/-!
The two functions that send a gradient, on a socket of which a send may take
only some of the bytes. They send the operation and the size by `send`, which
they ask only for an error, and the gradient by `send_all`, which tells them of
an error by -1 where they ask for 0.
-/
namespace GradientSends
open Gradients ServerTask ServerInterface Sends
variable {B F : Type}

/-- The loop of `send_all`, after `bytesSent` bytes. -/
def sendRest (data : List B) (bytesSent : Nat) : Sender B (Option Nat)
  | [] => if bytesSent < data.length then ⟨[], .sending⟩ else ⟨[], .returned (some bytesSent, [])⟩
  | retval :: results =>
    if bytesSent < data.length then
      match retval with
      | none => ⟨[], .returned (none, results)⟩
      | some n =>
        let taken := (data.drop bytesSent).take n
        let after := sendRest data (bytesSent + taken.length) results
        ⟨taken ++ after.taken, after.outcome⟩
    else ⟨[], .returned (some bytesSent, retval :: results)⟩

/-- `send_all`, which returns -1 or the number of bytes. -/
def sendAll (data : List B) : Sender B (Option Nat) := sendRest data 0

variable (w : Wire B F)

/-- The gradient, in a buffer of `size` bytes. -/
def sendBody (size : UInt32) (serialize : Except Fault (List B)) : Sender B Unit := do
  let data ← compute serialize
  if size.toNat < data.length then fail .undefined else
  let ret ← sendAll data
  if ret = some 0 then fail (.exception "Error sending grad") else
  pure ()

/-- What the two functions do, for an operation and a gradient of this serialized size. -/
def sendGradient (op : PsOp) (serializedSize : Nat) (serialize : Except Fault (List B)) : Sender B Unit := do
  let ret ← send (w.u32.put op.code)
  if ret = none then fail (.exception "Error sending operation") else
  let size : UInt32 := UInt32.ofNat serializedSize
  let ret ← send (w.u32.put size)
  if ret = none then fail (.exception "Error sending grad size") else
  sendBody size serialize

def sendLrGradient (gradient : LRSparseGradient F) : Sender B Unit :=
  sendGradient w PsOp.sendLrGradient gradient.getSerializedSize (.ok (gradient.serialize w))

def sendMfGradient (gradient : MFSparseGradient F) : Sender B Unit :=
  sendGradient w PsOp.sendMfGradient gradient.getSerializedSize (gradient.serialize w)

/-- A run that returns has sent the message, and a run that ends in any other way has thrown. -/
def Honest (message : List B) (r : Run B (Unit × List (Option Nat))) : Prop :=
  match r.outcome with
  | .returned _ => r.taken = message
  | .failed (.exception _) => True
  | .failed _ => False
  | .sending => True

section Whole
variable {data : List B} {bytesSent : Nat} {results : List (Option Nat)}

theorem sendRest_done (results : List (Option Nat)) (done : data.length ≤ bytesSent) :
    sendRest data bytesSent results = ⟨[], .returned (some bytesSent, results)⟩ := by
  cases results with
  | nil => exact if_neg (by omega)
  | cons retval results => exact if_neg (by omega)

theorem sendRest_some (n : Nat) (more : bytesSent < data.length) :
    sendRest data bytesSent (some n :: results) =
      ⟨(data.drop bytesSent).take n ++ (sendRest data (bytesSent + ((data.drop bytesSent).take n).length) results).taken,
        (sendRest data (bytesSent + ((data.drop bytesSent).take n).length) results).outcome⟩ := if_pos more

theorem left_after (n : Nat) :
    data.length - bytesSent - n = data.length - (bytesSent + ((data.drop bytesSent).take n).length) := by
  rw [List.length_take, List.length_drop]
  omega

theorem sendRest_completes (completes : Completes (data.length - bytesSent) results) (inside : bytesSent ≤ data.length) :
    ∃ rest, sendRest data bytesSent results = ⟨data.drop bytesSent, .returned (some data.length, rest)⟩ := by
  induction results generalizing bytesSent with
  | nil =>
    have done : bytesSent = data.length := by
      by_contra more
      exact not_completes_nil (by omega) completes
    exact ⟨[], by rw [sendRest_done _ (by omega), done, List.drop_length]⟩
  | cons retval results ih =>
    rcases Nat.lt_or_ge bytesSent data.length with more | done
    · cases retval with
      | none => exact absurd completes (not_completes_none (by omega))
      | some n =>
        rw [completes_some, left_after] at completes
        have inside' : bytesSent + ((data.drop bytesSent).take n).length ≤ data.length := by
          rw [List.length_take, List.length_drop]
          omega
        obtain ⟨rest, after⟩ := ih completes inside'
        have whole := List.prefix_iff_eq_append.mp (List.take_prefix n (data.drop bytesSent))
        rw [List.drop_drop] at whole
        exact ⟨rest, by rw [sendRest_some n more, after, whole]⟩
    · obtain rfl : bytesSent = data.length := by omega
      exact ⟨retval :: results, by rw [sendRest_done _ done, List.drop_length]⟩

theorem sendRest_breaks (breaks : Breaks (data.length - bytesSent) results) :
    ∃ taken rest, sendRest data bytesSent results = ⟨taken, .returned (none, rest)⟩ ∧
      taken.length < data.length - bytesSent := by
  induction results generalizing bytesSent with
  | nil => exact absurd breaks not_breaks_nil
  | cons retval results ih =>
    have more : bytesSent < data.length := by
      by_contra done
      rw [Nat.sub_eq_zero_of_le (by omega)] at breaks
      exact not_breaks_zero _ breaks
    cases retval with
    | none => exact ⟨[], results, if_pos more, by rw [List.length_nil]; omega⟩
    | some n =>
      rw [breaks_some, left_after] at breaks
      obtain ⟨taken, rest, after, few⟩ := ih breaks
      refine ⟨_, rest, by rw [sendRest_some n more, after], ?_⟩
      dsimp only
      rw [List.length_append]
      omega

theorem sendRest_waits (not_completed : ¬ Completes (data.length - bytesSent) results)
    (not_broken : ¬ Breaks (data.length - bytesSent) results) :
    ∃ taken, sendRest data bytesSent results = ⟨taken, .sending⟩ := by
  induction results generalizing bytesSent with
  | nil =>
    refine ⟨[], if_pos ?_⟩
    by_contra done
    rw [Nat.sub_eq_zero_of_le (by omega)] at not_completed
    exact not_completed (completes_zero [])
  | cons retval results ih =>
    have more : bytesSent < data.length := by
      by_contra done
      rw [Nat.sub_eq_zero_of_le (by omega)] at not_completed
      exact not_completed (completes_zero _)
    cases retval with
    | none => exact absurd (breaks_none (by omega)) not_broken
    | some n =>
      rw [completes_some, left_after] at not_completed
      rw [breaks_some, left_after] at not_broken
      obtain ⟨taken, after⟩ := ih not_completed not_broken
      exact ⟨_, by rw [sendRest_some n more, after]⟩

end Whole

section Honesty
variable {w} {op : PsOp} {data : List B} {serializedSize : Nat} {serialize : Except Fault (List B)} {n₁ n₂ : Nat}
  {rest : List (Option Nat)}

theorem sendGradient_body (serialize : Except Fault (List B)) (n₁ n₂ : Nat) (rest : List (Option Nat)) :
    sendGradient w op serializedSize serialize (some n₁ :: some n₂ :: rest) =
      ⟨(w.u32.put op.code).take n₁ ++ ((w.u32.put (UInt32.ofNat serializedSize)).take n₂ ++
        (sendBody (UInt32.ofNat serializedSize) serialize rest).taken),
        (sendBody (UInt32.ofNat serializedSize) serialize rest).outcome⟩ := rfl

theorem sendBody_ok (fits : serializedSize < 2 ^ 32) (sized : data.length = serializedSize) :
    sendBody (UInt32.ofNat serializedSize) (.ok data) rest =
      (do let ret ← sendAll data; if ret = some 0 then fail (.exception "Error sending grad") else pure ()) rest := by
  have size : (UInt32.ofNat serializedSize).toNat = serializedSize := UInt32.toNat_ofNat_of_lt' fits
  unfold sendBody
  have start : compute (.ok data) rest = (⟨[], .returned (data, rest)⟩ : Run B _) := rfl
  rw [bind_returned start, if_neg (by rw [size, sized]; omega), List.nil_append]

theorem sendBody_overflows (large : 2 ^ 32 ≤ serializedSize) (sized : data.length = serializedSize) :
    sendBody (UInt32.ofNat serializedSize) (.ok data) rest = ⟨[], .failed .undefined⟩ := by
  have wraps := UInt32.toNat_lt (UInt32.ofNat serializedSize)
  have start : compute (.ok data) rest = (⟨[], .returned (data, rest)⟩ : Run B _) := rfl
  unfold sendBody
  rw [bind_returned start, if_pos (by omega), List.nil_append]
  rfl

theorem taken_whole_iff {a b c d : List B} (short : d.length ≤ c.length) :
    a.take n₁ ++ (b.take n₂ ++ d) = a ++ (b ++ c) ↔ a.length ≤ n₁ ∧ b.length ≤ n₂ ∧ d = c := by
  constructor
  · intro whole
    have lengths := congrArg List.length whole
    simp only [List.length_append, List.length_take] at lengths
    have first : a.length ≤ n₁ := by omega
    have second : b.length ≤ n₂ := by omega
    rw [List.take_of_length_le first, List.take_of_length_le second] at whole
    exact ⟨first, second, List.append_cancel_left (List.append_cancel_left whole)⟩
  · rintro ⟨first, second, rfl⟩
    rw [List.take_of_length_le first, List.take_of_length_le second]

def Sent (size n₁ n₂ : Nat) (rest : List (Option Nat)) : Prop :=
  ¬ Breaks size rest ∧ (Completes size rest → 4 ≤ n₁ ∧ 4 ≤ n₂)

theorem honest_body_iff (sized : data.length = serializedSize) (some_byte : 0 < serializedSize) (op : PsOp) :
    Honest (w.u32.put op.code ++ (w.u32.put (UInt32.ofNat serializedSize) ++ data))
        (sendGradient w op serializedSize (.ok data) (some n₁ :: some n₂ :: rest)) ↔
      serializedSize < 2 ^ 32 ∧ Sent serializedSize n₁ n₂ rest := by
  rw [sendGradient_body]
  by_cases fits : serializedSize < 2 ^ 32
  · rw [sendBody_ok fits sized]
    subst sized
    by_cases completes : Completes data.length rest
    · obtain ⟨rest', done⟩ := @sendRest_completes B data 0 rest completes (Nat.zero_le _)
      have sent : sendAll data rest = ⟨data, .returned (some data.length, rest')⟩ := done
      have nonzero : some data.length ≠ some 0 := fun same => absurd (Option.some.inj same) (by omega)
      rw [bind_returned sent, if_neg nonzero]
      change _ ++ (_ ++ (data ++ [])) = _ ↔ _
      rw [List.append_nil, taken_whole_iff (Nat.le_refl _), w.u32.put_length, w.u32.put_length, Sent]
      exact ⟨fun ⟨first, second, _⟩ => ⟨fits, completes.not_breaks, fun _ => ⟨first, second⟩⟩,
        fun ⟨_, _, full⟩ => ⟨(full completes).1, (full completes).2, rfl⟩⟩
    · by_cases breaks : Breaks data.length rest
      · obtain ⟨taken, rest', done, few⟩ := @sendRest_breaks B data 0 rest breaks
        have sent : sendAll data rest = ⟨taken, .returned (none, rest')⟩ := done
        rw [bind_returned sent, if_neg nofun]
        change _ ++ (_ ++ (taken ++ [])) = _ ↔ _
        rw [Nat.sub_zero] at few
        rw [List.append_nil, taken_whole_iff (Nat.le_of_lt few)]
        apply iff_of_false
        · rintro ⟨_, _, same⟩
          rw [same] at few
          exact absurd few (Nat.lt_irrefl _)
        · exact fun within => within.2.1 breaks
      · obtain ⟨taken, done⟩ := @sendRest_waits B data 0 rest completes breaks
        have sent : sendAll data rest = ⟨taken, .sending⟩ := done
        rw [bind_sending sent]
        exact iff_of_true trivial ⟨fits, breaks, fun completed => absurd completed completes⟩
  · rw [sendBody_overflows (Nat.le_of_not_lt fits) sized]
    exact iff_of_false id fun within => fits within.1

theorem honest_iff (sized : data.length = serializedSize) (some_byte : 0 < serializedSize) (op : PsOp)
    (results : List (Option Nat)) :
    Honest (w.u32.put op.code ++ (w.u32.put (UInt32.ofNat serializedSize) ++ data))
        (sendGradient w op serializedSize (.ok data) results) ↔
      ∀ n₁ n₂ rest, results = some n₁ :: some n₂ :: rest → serializedSize < 2 ^ 32 ∧ Sent serializedSize n₁ n₂ rest := by
  match results with
  | [] | none :: _ | [some _] | some _ :: none :: _ => exact iff_of_true trivial nofun
  | some n₁ :: some n₂ :: rest =>
    rw [honest_body_iff sized some_byte op]
    constructor
    · rintro sent _ _ _ ⟨⟩
      exact sent
    · exact fun sent => sent n₁ n₂ rest rfl

theorem dishonest_iff (text : String) (message : List B) (results : List (Option Nat)) :
    Honest message (sendGradient w op serializedSize (.error (.assertion text)) results) ↔
      ∀ n₁ n₂ rest, results ≠ some n₁ :: some n₂ :: rest := by
  match results with
  | [] | none :: _ | [some _] | some _ :: none :: _ => exact iff_of_true trivial nofun
  | some n₁ :: some n₂ :: rest => exact iff_of_false id fun other => other n₁ n₂ rest rfl

/-- The asserts of `MFSparseGradient::serialize` let only such gradients pass. -/
theorem serialize_unshaped (w : Wire B F) {gradient : MFSparseGradient F} (unshaped : ¬ MFSparseGradient.Shaped gradient) :
    ∃ text, gradient.serialize w = .error (.assertion text) := by
  unfold MFSparseGradient.serialize
  split
  next => exact ⟨_, rfl⟩
  next users =>
    split
    next => exact ⟨_, rfl⟩
    next userFactors =>
      split
      next => exact ⟨_, rfl⟩
      next items =>
        split
        next => exact ⟨_, rfl⟩
        next itemFactors =>
          refine absurd ⟨not_not.mp users, not_not.mp items, ?_⟩ unshaped
          intro e member
          by_contra wrong
          rcases List.mem_append.mp member with user | item
          · exact userFactors ⟨e, user, wrong⟩
          · exact itemFactors ⟨e, item, wrong⟩

/-- The two functions keep to it exactly if, where both words are sent without an error, the gradient fits, no
send of it fails, and if all of it is sent so are all bytes of the two words. -/
theorem gradient_sends (w : Wire B F) (results : List (Option Nat)) :
    (∀ gradient : LRSparseGradient F, Honest (lrMessage w gradient) (sendLrGradient w gradient results) ↔
      ∀ n₁ n₂ rest, results = some n₁ :: some n₂ :: rest →
        gradient.getSerializedSize < 2 ^ 32 ∧ Sent gradient.getSerializedSize n₁ n₂ rest) ∧
    ∀ gradient : MFSparseGradient F, Honest (mfMessage w gradient) (sendMfGradient w gradient results) ↔
      ∀ n₁ n₂ rest, results = some n₁ :: some n₂ :: rest → MFSparseGradient.Shaped gradient ∧
        gradient.getSerializedSize < 2 ^ 32 ∧ Sent gradient.getSerializedSize n₁ n₂ rest := by
  constructor
  · intro gradient
    exact honest_iff (gradient.serialize_length w) (by rw [LRSparseGradient.getSerializedSize]; omega) .sendLrGradient results
  · intro gradient
    by_cases shaped : MFSparseGradient.Shaped gradient
    · have length := MFSparseGradient.layout_length w shaped
      have some_byte : 0 < gradient.getSerializedSize := by
        rw [MFSparseGradient.getSerializedSize]
        omega
      unfold sendMfGradient
      rw [MFSparseGradient.serialize_shaped w shaped]
      simp only [shaped, true_and]
      exact honest_iff length some_byte .sendMfGradient results
    · obtain ⟨text, fails⟩ := serialize_unshaped w shaped
      unfold sendMfGradient
      rw [fails]
      simp only [shaped, false_and, imp_false]
      exact dishonest_iff text (mfMessage w gradient) results

/-- An error in the gradient is taken for a success, and so is a word of which only three bytes are sent. -/
theorem error_unnoticed :
    (sendLrGradient .littleEndian (⟨[(5, 1)], 7⟩ : LRSparseGradient UInt32) [some 4, some 4, none]).outcome =
      .returned ((), []) ∧
    (sendLrGradient .littleEndian (⟨[(5, 1)], 7⟩ : LRSparseGradient UInt32) [some 3, some 4, some 16]).outcome =
      .returned ((), []) ∧
    ¬ Honest (lrMessage .littleEndian (⟨[(5, 1)], 7⟩ : LRSparseGradient UInt32))
      (sendLrGradient .littleEndian ⟨[(5, 1)], 7⟩ [some 4, some 4, none]) ∧
    ¬ Honest (lrMessage .littleEndian (⟨[(5, 1)], 7⟩ : LRSparseGradient UInt32))
      (sendLrGradient .littleEndian ⟨[(5, 1)], 7⟩ [some 3, some 4, some 16]) := by
  refine ⟨rfl, rfl, ?_, ?_⟩
  · intro (sent : (sendLrGradient .littleEndian (⟨[(5, 1)], 7⟩ : LRSparseGradient UInt32) [some 4, some 4, none]).taken = _)
    exact absurd sent (by decide)
  · intro (sent : (sendLrGradient .littleEndian (⟨[(5, 1)], 7⟩ : LRSparseGradient UInt32) [some 3, some 4, some 16]).taken = _)
    exact absurd sent (by decide)

end Honesty
end GradientSends

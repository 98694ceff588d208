import Cirrus.Lib.Loops

/- Programs that record what they do. The record is there however a program ends, so that what holds
   of every entry holds of what was done before a failure too. -/
namespace Traces
variable {A ε α β σ : Type}

structure Traced (A ε α : Type) where
  trace : List A
  result : Except ε α

instance : Monad (Traced A ε) where
  pure a := ⟨[], .ok a⟩
  bind d f :=
    match d.result with
    | .ok a => ⟨d.trace ++ (f a).trace, (f a).result⟩
    | .error fault => ⟨d.trace, .error fault⟩

def record (a : A) : Traced A ε Unit := ⟨[a], .ok ()⟩

/-- A computation on the side, which records nothing. -/
def compute (r : Except ε α) : Traced A ε α := ⟨[], r⟩

def fail (fault : ε) : Traced A ε α := ⟨[], .error fault⟩

theorem bind_ok {d : Traced A ε α} {a : α} (ok : d.result = .ok a) (f : α → Traced A ε β) :
    d >>= f = ⟨d.trace ++ (f a).trace, (f a).result⟩ := by
  change (match d.result with | .ok a => _ | .error fault => _) = _
  rw [ok]

theorem bind_error {d : Traced A ε α} {fault : ε} (failed : d.result = .error fault) (f : α → Traced A ε β) :
    d >>= f = ⟨d.trace, .error fault⟩ := by
  change (match d.result with | .ok a => _ | .error fault => _) = _
  rw [failed]

theorem trace_bind (d : Traced A ε α) (f : α → Traced A ε β) : d.trace <+: (d >>= f).trace := by
  cases ended : d.result with
  | ok a =>
    rw [bind_ok ended]
    exact List.prefix_append _ _
  | error fault => exact ⟨[], by rw [bind_error ended, List.append_nil]⟩

section Results

theorem result_bind (d : Traced A ε α) (f : α → Traced A ε β) :
    (d >>= f).result = d.result >>= fun a => (f a).result := by
  cases ended : d.result with
  | ok a => rw [bind_ok ended, Loops.bind_of_ok rfl]
  | error fault => rw [bind_error ended, Loops.bind_of_error rfl]

theorem result_foldlM (f : σ → α → Traced A ε σ) (l : List α) (s : σ) :
    (l.foldlM f s).result = l.foldlM (fun s a => (f s a).result) s := by
  induction l generalizing s with
  | nil => rfl
  | cons a l ih =>
    rw [List.foldlM_cons, List.foldlM_cons, result_bind]
    exact bind_congr ih

end Results

section Entries
variable {P P' : List A → A → Prop} {before : List A}

def Throughout (P : List A → A → Prop) : List A → List A → Prop
  | _, [] => True
  | before, a :: later => P before a ∧ Throughout P (before ++ [a]) later

theorem throughout_append {first second : List A} :
    Throughout P before (first ++ second) ↔ Throughout P before first ∧ Throughout P (before ++ first) second := by
  induction first generalizing before with
  | nil =>
    rw [List.append_nil]
    exact (true_and _).to_iff.symm
  | cons a first ih =>
    change P before a ∧ Throughout P (before ++ [a]) (first ++ second) ↔
      (P before a ∧ Throughout P (before ++ [a]) first) ∧ _
    rw [ih, and_assoc, List.append_assoc]
    rfl

theorem throughout_singleton {a : A} (entry : P before a) : Throughout P before [a] := ⟨entry, trivial⟩

theorem Throughout.entry {earlier later : List A} {a : A} (all : Throughout P before (earlier ++ a :: later)) :
    P (before ++ earlier) a := (throughout_append.mp all).2.1

end Entries

/-- After the entries `before`, a program records entries of which `P` holds, and `Q` holds where it ends
with a value. -/
structure Follows (P : List A → A → Prop) (Q : List A → α → Prop) (before : List A) (d : Traced A ε α) : Prop where
  entries : Throughout P before d.trace
  value : ∀ a, d.result = .ok a → Q (before ++ d.trace) a

namespace Follows
variable {P : List A → A → Prop} {Q : List A → α → Prop} {R : List A → β → Prop} {before : List A}

theorem pure {a : α} (holds : Q before a) : Follows P Q before (Pure.pure a : Traced A ε α) where
  entries := trivial
  value _ same := by
    cases same
    rwa [show (Pure.pure a : Traced A ε α).trace = [] from rfl, List.append_nil]

theorem compute {r : Except ε α} (holds : ∀ a, r = .ok a → Q before a) : Follows P Q before (compute r) where
  entries := trivial
  value a same := by
    rw [show (Traces.compute r : Traced A ε α).trace = [] from rfl, List.append_nil]
    exact holds a same

theorem fail (fault : ε) : Follows P Q before (fail fault : Traced A ε α) where
  entries := trivial
  value _ same := nomatch same

theorem record {Q : List A → Unit → Prop} {a : A} (entry : P before a) (holds : Q (before ++ [a]) ()) :
    Follows P Q before (record a : Traced A ε Unit) where
  entries := throughout_singleton entry
  value _ _ := holds

theorem bind {d : Traced A ε α} {f : α → Traced A ε β} (first : Follows P Q before d)
    (later : ∀ now a, Q now a → Follows P R now (f a)) : Follows P R before (d >>= f) := by
  cases ended : d.result with
  | ok a =>
    have second := later _ a (first.value a ended)
    rw [bind_ok ended]
    constructor
    · exact throughout_append.mpr ⟨first.entries, second.entries⟩
    · intro b same
      rw [← List.append_assoc]
      exact second.value b same
  | error fault =>
    rw [bind_error ended]
    exact ⟨first.entries, nofun⟩

theorem mono {Q' : List A → α → Prop} {d : Traced A ε α} (follows : Follows P Q before d)
    (weaker : ∀ now a, Q now a → Q' now a) : Follows P Q' before d :=
  ⟨follows.entries, fun a same => weaker _ a (follows.value a same)⟩

theorem foldlM {f : σ → β → Traced A ε σ} {l : List β} {I : List β → List A → σ → Prop}
    (round : ∀ seen b, seen ++ [b] <+: l → ∀ now s, I seen now s → Follows P (I (seen ++ [b])) now (f s b))
    {s : σ} (start : I [] before s) : Follows P (I l) before (l.foldlM f s) := by
  have tail : ∀ rest seen now s, seen ++ rest = l → I seen now s → Follows P (I l) now (rest.foldlM f s) := by
    intro rest
    induction rest with
    | nil =>
      intro seen now s whole here
      rw [List.append_nil] at whole
      exact .pure (whole ▸ here)
    | cons b rest ih =>
      intro seen now s whole here
      have whole' : (seen ++ [b]) ++ rest = l := by rw [List.append_assoc]; exact whole
      rw [List.foldlM_cons]
      exact (round seen b ⟨rest, whole'⟩ now s here).bind fun now' s' after => ih _ now' s' whole' after
  exact tail l [] before s rfl start

end Follows
end Traces

import Cirrus.Lib.Transition

/- Classes of objects: which objects are constructed, what updates them, how they are copied, which
   part of them is their parameters and what they compute. Nothing here mentions a particular class. -/
namespace Copying
variable {ε M U P O : Type}

structure ObjectClass (ε M U P O : Type) where
  constructed : M → Prop
  update : M → U → Option M
  copy : M → Except ε M
  parameters : M → P
  behaviour : M → O

namespace ObjectClass

def Reached (k : ObjectClass ε M U P O) : M → Prop :=
  Transition.Reachable k.update k.constructed Transition.anyStep

/-- A copy is made that has the parameters of the object and computes what the object does. -/
def Faithful (k : ObjectClass ε M U P O) (m : M) : Prop :=
  ∃ c, k.copy m = .ok c ∧ k.parameters c = k.parameters m ∧ k.behaviour c = k.behaviour m

def Determined (k : ObjectClass ε M U P O) : Prop :=
  ∀ m m', k.parameters m = k.parameters m' → k.behaviour m = k.behaviour m'

variable {k : ObjectClass ε M U P O} {m c : M}

theorem Reached.keeps {I : M → Prop} (initially : ∀ m, k.constructed m → I m)
    (kept : ∀ m u m', I m → k.update m u = some m' → I m') (reached : k.Reached m) : I m :=
  reached.invariant initially fun m u m' holds _ taken => kept m u m' holds taken

theorem Determined.faithful (determined : k.Determined) (made : k.copy m = .ok c)
    (same : k.parameters c = k.parameters m) : k.Faithful m :=
  ⟨c, made, same, determined c m same⟩

theorem Determined.faithful_iff (determined : k.Determined) (made : k.copy m = .ok c) :
    k.Faithful m ↔ k.parameters c = k.parameters m := by
  constructor
  · rintro ⟨c', made', same, _⟩
    rw [made] at made'
    obtain rfl := Except.ok.inj made'
    exact same
  · exact determined.faithful made

theorem ok_of_toOption {r : Except ε M} (returns : r.toOption = some m) : r = .ok m := by
  cases r with
  | ok a => exact congrArg Except.ok (Option.some.inj returns)
  | error fault => cases returns

theorem ok_of_map_toOption {R : Type} {r : Except ε (M × R)} (returns : (r.map Prod.fst).toOption = some m) :
    ∃ rest, r = .ok (m, rest) := by
  cases r with
  | ok p =>
    obtain rfl := Option.some.inj returns
    exact ⟨p.2, rfl⟩
  | error fault => cases returns

end ObjectClass
end Copying

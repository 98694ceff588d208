import Cirrus.LambdaData
import Cirrus.Lib.Best
import Cirrus.Lib.Loops
import Mathlib

/-!
The functions of `min_max_helper` on one chunk: its own bounds, the keys and
values that it pushes, in batches by slot, and the scaling by the bounds that it
reads back. Numbers are exact, and so is their way to text and back.
-/
namespace MinMax
open LambdaData
variable {F : Type}

inductive Bound
  | max
  | min
  deriving DecidableEq

/-- The dictionary of bounds: a dictionary for `"max"`, and one for `"min"`. -/
abbrev Bounds (K F : Type) := Bound → Dict K F

def Bound.suffix : Bound → Text
  | max => ['_', 'm', 'a', 'x']
  | min => ['_', 'm', 'i', 'n']

def Bound.key (bound : Bound) (idx : Text) : Text := idx ++ bound.suffix

theorem key_injective {bound bound' : Bound} {idx idx' : Text} (same : bound.key idx = bound'.key idx') :
    bound = bound' ∧ idx = idx' := by
  have suffixes : bound.suffix.length = bound'.suffix.length := by
    cases bound <;> cases bound' <;> rfl
  obtain ⟨texts, ends⟩ := List.append_inj' same suffixes
  refine ⟨?_, texts⟩
  cases bound <;> cases bound' <;> first | rfl | exact absurd ends (by decide)

section Keys

def both {A : Type} (max min : A) : Bound → A
  | .max => max
  | .min => min

/-- One of the pairs of lists in `get_keys_values`, with each key beside its value. -/
def keysValues (bounds : Bounds Int F) (bound : Bound) : Except Raised (List (Text × F)) :=
  (bounds .max).keys.mapM fun idx => do
    let v ← lookup (bounds bound) idx
    pure (bound.key (str idx), v)

def getKeysValues (bounds : Bounds Int F) : Except Raised (Bound → List (Text × F)) := do
  let maxKV ← keysValues bounds .max
  let minKV ← keysValues bounds .min
  pure (both maxKV minKV)

def addToSlot (keyslot : Text → Nat) (slots : Dict Nat (List (Text × F))) (kv : Text × F) : Dict Nat (List (Text × F)) :=
  let slot := keyslot kv.1
  let slots := if slot ∈ slots.keys then slots else slots.set slot []
  slots.set slot ((slots.get? slot).getD [] ++ [kv])

def slotBatches (keyslot : Text → Nat) (kvs : List (Text × F)) : List (List (Text × F)) :=
  (kvs.foldl (addToSlot keyslot) Dict.empty).entries.map Prod.snd

/-- `json.dumps` and `json.loads`: the columns become texts. -/
def json (bounds : Bounds Int F) : Bounds Text F := fun bound => (bounds bound).mapKeys str str_injective

/-- `mget` of the keys that belong to a bound. Redis wants at least one key. -/
def mget (redis : Text → Option F) (bound : Bound) (original : List Text) : Except Raised (List (Option F)) :=
  if original = [] then .error .responseError else .ok (original.map fun idx => redis (bound.key idx))

def finalBounds (original : List Text) (values : Bound → List (Option F)) : Bounds Text (Option F) :=
  fun bound => Dict.ofList (original.zip (values bound))

/-- `float` of a value from Redis, which is `None` for a key that is not there -/
def toFloat : Option F → Except Raised F
  | some v => .ok v
  | none => .error .typeError

theorem keysValues_ok {bounds : Bounds Int F} (same : ∀ idx, idx ∈ (bounds .max).keys ↔ idx ∈ (bounds .min).keys)
    (bound : Bound) : ∃ kvs, keysValues bounds bound = .ok kvs ∧
      ∀ e, e ∈ kvs ↔ ∃ idx v, (bounds bound).get? idx = some v ∧ e = (bound.key (str idx), v) := by
  have columns : ∀ idx, idx ∈ (bounds .max).keys ↔ idx ∈ (bounds bound).keys := by
    cases bound with
    | max => exact fun _ => Iff.rfl
    | min => exact same
  have each : ∀ idx v, (bounds bound).get? idx = some v → (do
      let v ← lookup (bounds bound) idx
      pure (bound.key (str idx), v) : Except Raised (Text × F)) = .ok (bound.key (str idx), v) := by
    intro idx v found
    exact Loops.bind_of_ok (lookup_eq_ok.mpr found) _
  obtain ⟨kvs, done⟩ := Loops.mapM_gives fun idx member => by
    obtain ⟨v, found⟩ := Dict.mem_keys.mp ((columns idx).mp member)
    exact ⟨_, each idx v found⟩
  refine ⟨kvs, done, fun e => ?_⟩
  rw [Loops.mem_of_mapM done]
  constructor
  · rintro ⟨idx, member, one⟩
    obtain ⟨v, found⟩ := Dict.mem_keys.mp ((columns idx).mp member)
    rw [each idx v found] at one
    exact ⟨idx, v, found, (Except.ok.inj one).symm⟩
  · rintro ⟨idx, v, found, rfl⟩
    exact ⟨idx, (columns idx).mpr (Dict.mem_keys.mpr ⟨v, found⟩), each idx v found⟩

theorem addToSlot_get? (keyslot : Text → Nat) (slots : Dict Nat (List (Text × F))) (kv : Text × F) :
    (addToSlot keyslot slots kv).get? =
      Function.update slots.get? (keyslot kv.1) (some ((slots.get? (keyslot kv.1)).getD [] ++ [kv])) := by
  unfold addToSlot
  dsimp only
  rw [Dict.get?_set]
  split
  next => rfl
  next absent =>
    rw [Dict.get?_set, Function.update_idem, Function.update_self, Dict.get?_of_not_mem absent]
    rfl

theorem mem_addToSlot (keyslot : Text → Nat) (slots : Dict Nat (List (Text × F))) (kv e : Text × F) :
    (∃ slot batch, (addToSlot keyslot slots kv).get? slot = some batch ∧ e ∈ batch) ↔
      (∃ slot batch, slots.get? slot = some batch ∧ e ∈ batch) ∨ e = kv := by
  rw [addToSlot_get?]
  constructor
  · rintro ⟨slot, batch, found, member⟩
    by_cases same : slot = keyslot kv.1
    · rw [same, Function.update_self] at found
      cases found
      rcases List.mem_append.mp member with earlier | last
      · cases here : slots.get? (keyslot kv.1) with
        | none =>
          rw [here] at earlier
          cases earlier
        | some batch =>
          rw [here] at earlier
          exact .inl ⟨_, batch, here, earlier⟩
      · exact .inr (List.mem_singleton.mp last)
    · rw [Function.update_of_ne same] at found
      exact .inl ⟨slot, batch, found, member⟩
  · rintro (⟨slot, batch, found, member⟩ | rfl)
    · by_cases same : slot = keyslot kv.1
      · rw [← same, found]
        exact ⟨slot, _, Function.update_self .., List.mem_append_left _ member⟩
      · exact ⟨slot, batch, (Function.update_of_ne same ..).trans found, member⟩
    · exact ⟨keyslot e.1, _, Function.update_self .., List.mem_append_right _ List.mem_cons_self⟩

theorem mem_slotBatches (keyslot : Text → Nat) (kvs : List (Text × F)) (e : Text × F) :
    (∃ batch ∈ slotBatches keyslot kvs, e ∈ batch) ↔ e ∈ kvs := by
  have run : ∀ slots : Dict Nat (List (Text × F)),
      (∃ slot batch, (kvs.foldl (addToSlot keyslot) slots).get? slot = some batch ∧ e ∈ batch) ↔
        (∃ slot batch, slots.get? slot = some batch ∧ e ∈ batch) ∨ e ∈ kvs := by
    induction kvs with
    | nil => simp
    | cons kv kvs ih =>
      intro slots
      rw [List.foldl_cons, ih, mem_addToSlot, List.mem_cons, or_assoc]
  unfold slotBatches
  constructor
  · rintro ⟨batch, member, inside⟩
    obtain ⟨⟨slot, batch⟩, entry, rfl⟩ := List.mem_map.mp member
    have pushed := (run Dict.empty).mp ⟨slot, batch, Dict.get?_eq_some.mpr entry, inside⟩
    refine pushed.resolve_left ?_
    rintro ⟨_, _, found, _⟩
    cases found
  · intro member
    obtain ⟨slot, batch, found, inside⟩ := (run Dict.empty).mpr (.inr member)
    exact ⟨batch, List.mem_map.mpr ⟨(slot, batch), Dict.get?_eq_some.mp found, rfl⟩, inside⟩

end Keys

section Chunk
variable [LinearOrder F]

def Bound.better : Bound → Better F
  | max => Better.upper
  | min => Better.lower

def Bound.see (bound : Bound) (col : Dict Int F) (e : Int × F) : Dict Int F :=
  let col := if e.1 ∈ col.keys then col else col.set e.1 e.2
  match col.get? e.1 with
  | some current => if bound.better.rel e.2 current then col.set e.1 e.2 else col
  | none => col

def getDataBounds (data : Rows Int F) : Bounds Int F :=
  data.foldl (fun bounds row => row.foldl (fun bounds e bound => bound.see (bounds bound) e) bounds) fun _ => Dict.empty

section Arithmetic
variable [Field F]

def epsilon : F := 1 / 10000

def scaled (newMin newMax minV maxV val : F) : F :=
  if epsilon < |maxV - minV| then (val - minV) / (maxV - minV) * (newMax - newMin) + newMin
  else (newMin + newMax) / 2

def scaleData (data : Rows Int F) (globalBounds : Bounds Text (Option F)) (newMin newMax : F) :
    Except Raised (Rows Text F) :=
  data.mapM fun row => row.mapM fun (idxT, val) => do
    let idx := str idxT
    let minV ← lookup (globalBounds .min) idx >>= toFloat
    let maxV ← lookup (globalBounds .max) idx >>= toFloat
    pure (idx, scaled newMin newMax minV maxV val)

end Arithmetic

theorem see_get? (bound : Bound) (col : Dict Int F) (e : Int × F) :
    (bound.see col e).get? = bound.better.compareAndSet col.get? e.1 e.2 := by
  unfold Bound.see
  dsimp only
  cases here : col.get? e.1 with
  | none =>
    have absent : e.1 ∉ col.keys := fun member => by
      obtain ⟨x, found⟩ := Dict.mem_keys.mp member
      rw [here] at found
      cases found
    rw [if_neg absent, Dict.get?_set, Function.update_self, Better.compareAndSet_none here]
    dsimp only
    rw [if_neg (bound.better.irrefl e.2), Dict.get?_set]
  | some current =>
    have known : e.1 ∈ col.keys := Dict.mem_keys.mpr ⟨current, here⟩
    rw [if_pos known, here, Better.compareAndSet_some here]
    dsimp only
    split
    · exact Dict.get?_set col e.1 e.2
    · rfl

/-- The bounds of a chunk are what its entries leave in an empty store. -/
theorem getDataBounds_get? (data : Rows Int F) (bound : Bound) :
    (getDataBounds data bound).get? = bound.better.pushAll (fun _ => none) data.flatten := by
  have run : ∀ (entries : List (Int × F)) (bounds : Bounds Int F),
      (entries.foldl (fun bounds e bound => bound.see (bounds bound) e) bounds bound).get? =
        bound.better.pushAll (bounds bound).get? entries := by
    intro entries
    induction entries with
    | nil => exact fun _ => rfl
    | cons e entries ih =>
      intro bounds
      rw [List.foldl_cons, ih, see_get?]
      rfl
  unfold getDataBounds
  rw [← List.foldl_flatten, run]
  rfl

theorem getDataBounds_source {data : Rows Int F} {bound : Bound} {idx : Int} {v : F}
    (found : (getDataBounds data bound).get? idx = some v) : (idx, v) ∈ data.flatten := by
  rw [getDataBounds_get?] at found
  exact (Better.pushAll_source found).resolve_left nofun

theorem getDataBounds_covers {data : Rows Int F} (bound : Bound) {e : Int × F} (member : e ∈ data.flatten) :
    bound.better.Covers (getDataBounds data bound).get? e := by
  rw [getDataBounds_get?]
  exact Better.covers_pushAll _ _ _ e member

theorem mem_keys_getDataBounds {data : Rows Int F} {bound : Bound} {idx : Int} :
    idx ∈ (getDataBounds data bound).keys ↔ ∃ v, (idx, v) ∈ data.flatten := by
  rw [Dict.mem_keys]
  constructor
  · rintro ⟨v, found⟩
    exact ⟨v, getDataBounds_source found⟩
  · rintro ⟨v, member⟩
    obtain ⟨current, here, _⟩ := getDataBounds_covers bound member
    exact ⟨current, here⟩

theorem getKeysValues_data (data : Rows Int F) : ∃ kvs, getKeysValues (getDataBounds data) = .ok kvs ∧
    ∀ bound e, e ∈ kvs bound ↔ ∃ idx v, (getDataBounds data bound).get? idx = some v ∧ e = (bound.key (str idx), v) := by
  have same : ∀ idx, idx ∈ (getDataBounds data .max).keys ↔ idx ∈ (getDataBounds data .min).keys := by
    intro idx
    rw [mem_keys_getDataBounds, mem_keys_getDataBounds]
  obtain ⟨maxKV, highest, maxima⟩ := keysValues_ok same .max
  obtain ⟨minKV, lowest, minima⟩ := keysValues_ok same .min
  refine ⟨both maxKV minKV, ?_, ?_⟩
  · unfold getKeysValues
    rw [Loops.bind_of_ok highest, Loops.bind_of_ok lowest]
    rfl
  · intro bound
    cases bound with
    | max => exact maxima
    | min => exact minima

section Scaling
variable [Field F]

theorem scaleData_ok {data : Rows Int F} {globalBounds : Bounds Text (Option F)} {lo hi : Int → F}
    (bounds : ∀ e ∈ data.flatten, (globalBounds .min).get? (str e.1) = some (some (lo e.1)) ∧
      (globalBounds .max).get? (str e.1) = some (some (hi e.1))) (newMin newMax : F) :
    scaleData data globalBounds newMin newMax =
      .ok (data.map fun row => row.map fun e => (str e.1, scaled newMin newMax (lo e.1) (hi e.1) e.2)) := by
  unfold scaleData
  apply Loops.mapM_pure
  intro row member
  apply Loops.mapM_pure
  intro e inside
  obtain ⟨least, greatest⟩ := bounds e (List.mem_flatten.mpr ⟨row, member, inside⟩)
  dsimp only
  rw [lookup_eq_ok.mpr least, lookup_eq_ok.mpr greatest]
  rfl

theorem scaled_min {minV maxV : F} (wide : epsilon < |maxV - minV|) (newMin newMax : F) :
    scaled newMin newMax minV maxV minV = newMin := by
  unfold scaled
  rw [if_pos wide, sub_self, zero_div, zero_mul, zero_add]

theorem scaled_flat {minV maxV : F} (flat : ¬ epsilon < |maxV - minV|) (newMin newMax val : F) :
    scaled newMin newMax minV maxV val = (newMin + newMax) / 2 := by
  unfold scaled
  rw [if_neg flat]

variable [IsStrictOrderedRing F]

theorem epsilon_nonneg : (0 : F) ≤ epsilon := by
  unfold epsilon
  positivity

theorem spread_pos {minV maxV : F} (wide : epsilon < |maxV - minV|) (ordered : minV ≤ maxV) : 0 < maxV - minV := by
  rw [abs_of_nonneg (sub_nonneg.mpr ordered)] at wide
  exact lt_of_le_of_lt epsilon_nonneg wide

theorem scaled_max {minV maxV : F} (wide : epsilon < |maxV - minV|) (newMin newMax : F) :
    scaled newMin newMax minV maxV maxV = newMax := by
  have nonzero : maxV - minV ≠ 0 := by
    intro zero
    rw [zero, abs_zero] at wide
    exact absurd wide (not_lt.mpr epsilon_nonneg)
  unfold scaled
  rw [if_pos wide, div_self nonzero, one_mul, sub_add_cancel]

theorem scaled_mem {newMin newMax minV maxV val : F} (ordered : newMin ≤ newMax) (above : minV ≤ val) (below : val ≤ maxV) :
    newMin ≤ scaled newMin newMax minV maxV val ∧ scaled newMin newMax minV maxV val ≤ newMax := by
  by_cases wide : epsilon < |maxV - minV|
  · have positive := spread_pos wide (above.trans below)
    have share_nonneg : 0 ≤ (val - minV) / (maxV - minV) := div_nonneg (sub_nonneg.mpr above) positive.le
    have share_le : (val - minV) / (maxV - minV) ≤ 1 := (div_le_one positive).mpr (sub_le_sub_right below minV)
    have width : 0 ≤ newMax - newMin := sub_nonneg.mpr ordered
    unfold scaled
    rw [if_pos wide]
    constructor
    · have part := mul_nonneg share_nonneg width
      linarith
    · have part := mul_le_mul_of_nonneg_right share_le width
      linarith
  · rw [scaled_flat wide]
    constructor
    · linarith
    · linarith

end Scaling

end Chunk
end MinMax

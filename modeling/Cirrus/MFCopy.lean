import Cirrus.LRCopies

/-!
`MFModel` as an object that is constructed, loaded, updated and copied. The copy is a
new model of the same sizes, whose weights the constructor draws and whose biases are 0.
-/
namespace MF
open Gradients SparseLR Decoder Copying Factorization
variable {B F : Type}

namespace MFModel

/-- `weights(i, j) = distribution(generator)`, with the vector and the number of values drawn before. -/
def drawAt (normal : UInt64 → Nat → F) (nfactors : UInt64) (i : Nat) (s : List F × Nat) (j : Nat) :
    Except Fault (List F × Nat) := do
  pure (← setCheckedAt s.1 (UInt64.ofNat i * nfactors + UInt64.ofNat j).toNat (normal nfactors s.2), s.2 + 1)

def drawRow (normal : UInt64 → Nat → F) (nfactors : UInt64) (s : List F × Nat) (i : Nat) : Except Fault (List F × Nat) :=
  (List.range nfactors.toNat).foldlM (drawAt normal nfactors i) s

def drawRows (normal : UInt64 → Nat → F) (nfactors rows : UInt64) (s : List F × Nat) : Except Fault (List F × Nat) :=
  (List.range rows.toNat).foldlM (drawRow normal nfactors) s

/-- `normal nfactors` are the values that a new `std::default_random_engine` gives a
`std::normal_distribution<FEATURE_TYPE>(0, 1.0 / nfactors)`, which are the same in every call. -/
def randomize (normal : UInt64 → Nat → F) (m : MFModel F) : Except Fault (MFModel F) := do
  let (userWeights, drawn) ← drawRows normal m.nfactors m.nusers (m.userWeights, 0)
  let (itemWeights, _) ← drawRows normal m.nfactors m.nitems (m.itemWeights, drawn)
  pure { m with userWeights := userWeights, itemWeights := itemWeights }

/-- The constructor that takes the sizes. -/
def initializeData [Zero F] [OfScientific F] (normal : UInt64 → Nat → F) (users items nfactors : UInt64) :
    Except Fault (MFModel F) := do
  let userWeights ← resize [] (users * nfactors).toNat
  let itemWeights ← resize [] (items * nfactors).toNat
  let userBias ← resize [] users.toNat
  let itemBias ← resize [] items.toNat
  randomize normal
    { nusers := users
      nitems := items
      nfactors := nfactors
      userWeights := userWeights
      itemWeights := itemWeights
      userBias := userBias
      itemBias := itemBias
      globalBias := initialGlobalBias }

def copy [Zero F] [OfScientific F] (normal : UInt64 → Nat → F) (m : MFModel F) : Except Fault (MFModel F) :=
  initializeData normal m.nusers m.nitems m.nfactors

/-- What the constructor that takes a serialized model loads it into. -/
def blank [Zero F] : MFModel F :=
  { nusers := 0, nitems := 0, nfactors := 0, userWeights := [], itemWeights := [], userBias := [], itemBias := [],
    globalBias := 0 }

inductive Update (B F : Type)
  | randomize
  | loadSerialized (memory : List B)
  | sgdUpdate (gradient : MFSparseGradient F)
  | sgdUpdateDataset (reg : Regularization F) (learningRate : F) (baseUser : UInt64) (dataset : SparseDataset F)

section Objects
variable [Zero F] [Add F] [Sub F] [Mul F] [OfScientific F]

def update (w : Wire B F) (normal : UInt64 → Nat → F) (m : MFModel F) : Update B F → Option (MFModel F)
  | .randomize => (m.randomize normal).toOption
  | .loadSerialized memory => ((loadInto w m memory).map Prod.fst).toOption
  | .sgdUpdate gradient => (m.sgdUpdate gradient).toOption
  | .sgdUpdateDataset reg learningRate baseUser dataset =>
    (m.sgdUpdateDataset reg learningRate baseUser dataset).toOption

inductive Constructed (w : Wire B F) (normal : UInt64 → Nat → F) : MFModel F → Prop
  | ofSizes {users items nfactors : UInt64} {m : MFModel F} (built : initializeData normal users items nfactors = .ok m) :
    Constructed w normal m
  | ofData {memory rest : List B} {m : MFModel F} (built : loadInto w blank memory = .ok (m, rest)) :
    Constructed w normal m

end Objects

/-- The model has the sizes that its members say, and the bias that all models have. -/
structure Kept [OfScientific F] (m : MFModel F) : Prop extends Sized m where
  fewUsers : m.nusers.toNat ≤ maxSize
  fewItems : m.nitems.toNat ≤ maxSize
  globalBias : m.globalBias = initialGlobalBias

/-- Every weight is what is drawn for its place, and every bias is 0. -/
structure AsDrawn [Zero F] (normal : UInt64 → Nat → F) (m : MFModel F) : Prop where
  userWeights : ∀ k x, m.userWeights[k]? = some x → x = normal m.nfactors k
  itemWeights : ∀ k x, m.itemWeights[k]? = some x → x = normal m.nfactors (m.userWeights.length + k)
  userBias : ∀ x ∈ m.userBias, x = 0
  itemBias : ∀ x ∈ m.itemBias, x = 0

section Drawing
variable {normal : UInt64 → Nat → F} {nfactors : UInt64} {old : List F} {k : Nat}

def draws (normal : UInt64 → Nat → F) (nfactors : UInt64) (k n : Nat) : List F :=
  (List.range n).map fun i => normal nfactors (k + i)

theorem draws_length (n : Nat) : (draws normal nfactors k n).length = n := by
  rw [draws, List.length_map, List.length_range]

theorem draws_succ (n : Nat) : draws normal nfactors k (n + 1) = draws normal nfactors k n ++ [normal nfactors (k + n)] := by
  rw [draws, List.range_succ, List.map_append]
  rfl

theorem eq_draws_iff {v : List F} :
    draws normal nfactors k v.length = v ↔ ∀ i x, v[i]? = some x → x = normal nfactors (k + i) := by
  have cell : ∀ i < v.length, (draws normal nfactors k v.length)[i]? = some (normal nfactors (k + i)) := by
    intro i inside
    rw [draws, List.getElem?_map, List.getElem?_range inside]
    rfl
  constructor
  · intro same i x there
    have here := cell i (List.getElem?_eq_some_iff.mp there).1
    rw [same, there] at here
    exact Option.some.inj here
  · intro each
    apply List.ext_getElem?
    intro i
    rcases Nat.lt_or_ge i v.length with inside | outside
    · rw [cell i inside, List.getElem?_eq_getElem inside, each i _ (List.getElem?_eq_getElem inside)]
    · rw [List.getElem?_eq_none outside, List.getElem?_eq_none (Nat.le_trans (Nat.le_of_eq (draws_length _)) outside)]

theorem setCheckedAt_ok {v v' : List F} {i : Nat} {x : F} :
    setCheckedAt v i x = .ok v' ↔ i < v.length ∧ v' = v.set i x := by
  rw [setCheckedAt]
  split
  · rename_i inside
    rw [Except.ok.injEq, eq_comm]
    exact ⟨fun same => ⟨inside, same⟩, And.right⟩
  · rename_i outside
    constructor
    · intro set
      cases set
    · intro set
      exact (outside set.1).elim

def drawn (normal : UInt64 → Nat → F) (nfactors : UInt64) (old : List F) (k n : Nat) : List F × Nat :=
  (draws normal nfactors k n ++ old.drop n, k + n)

theorem cell_toNat (i j : Nat) :
    (UInt64.ofNat i * nfactors + UInt64.ofNat j).toNat = (i * nfactors.toNat + j) % 2 ^ 64 := by
  rw [UInt64.toNat_add, UInt64.toNat_mul, UInt64.toNat_ofNat', UInt64.toNat_ofNat', Nat.mod_mul_mod, ← Nat.add_mod]

theorem drawAt_ok (word : old.length < 2 ^ 64) {i j : Nat} (inside : i * nfactors.toNat + j ≤ old.length)
    {t : List F × Nat} :
    drawAt normal nfactors i (drawn normal nfactors old k (i * nfactors.toNat + j)) j = .ok t ↔
      i * nfactors.toNat + (j + 1) ≤ old.length ∧ t = drawn normal nfactors old k (i * nfactors.toNat + (j + 1)) := by
  rw [← Nat.add_assoc]
  generalize place : i * nfactors.toNat + j = n at inside ⊢
  have length : (drawn normal nfactors old k n).1.length = old.length := by
    rw [drawn, List.length_append, draws_length, List.length_drop, Nat.add_sub_cancel' inside]
  have cell : (UInt64.ofNat i * nfactors + UInt64.ofNat j).toNat = n := by
    rw [cell_toNat, place, Nat.mod_eq_of_lt (Nat.lt_of_le_of_lt inside word)]
  have next : n < old.length → (drawn normal nfactors old k n).1.set n (normal nfactors (k + n)) =
      (drawn normal nfactors old k (n + 1)).1 := by
    intro more
    rw [drawn, drawn, List.set_append_right _ _ (Nat.le_of_eq (draws_length n)), draws_length, Nat.sub_self,
      List.drop_eq_getElem_cons more, List.set_cons_zero, draws_succ, List.append_assoc]
    rfl
  unfold drawAt
  rw [cell]
  constructor
  · intro done
    obtain ⟨v, set, same⟩ := Loops.ok_of_bind done
    obtain ⟨more, rfl⟩ := setCheckedAt_ok.mp set
    rw [length] at more
    cases same
    exact ⟨more, Prod.ext (next more) rfl⟩
  · rintro ⟨more, rfl⟩
    rw [Loops.bind_of_ok (setCheckedAt_ok.mpr ⟨length ▸ more, rfl⟩)]
    exact congrArg Except.ok (Prod.ext (next more) rfl)

theorem drawRow_ok (word : old.length < 2 ^ 64) {i : Nat} (inside : i * nfactors.toNat ≤ old.length) {t : List F × Nat} :
    drawRow normal nfactors (drawn normal nfactors old k (i * nfactors.toNat)) i = .ok t ↔
      (i + 1) * nfactors.toNat ≤ old.length ∧ t = drawn normal nfactors old k ((i + 1) * nfactors.toNat) := by
  rw [Nat.succ_mul]
  refine Loops.foldlM_range_iff (P := fun j => i * nfactors.toNat + j ≤ old.length)
    (fun j => drawn normal nfactors old k (i * nfactors.toNat + j)) inside (fun _ => Nat.le_of_succ_le) ?_
  intro j t here
  exact drawAt_ok word here

theorem drawRows_ok {rows : UInt64} (word : old.length < 2 ^ 64) {t : List F × Nat} :
    drawRows normal nfactors rows (old, k) = .ok t ↔
      rows.toNat * nfactors.toNat ≤ old.length ∧ t = drawn normal nfactors old k (rows.toNat * nfactors.toNat) := by
  have start : (old, k) = drawn normal nfactors old k (0 * nfactors.toNat) := by
    rw [Nat.zero_mul]
    rfl
  rw [start]
  refine Loops.foldlM_range_iff (P := fun i => i * nfactors.toNat ≤ old.length)
    (fun i => drawn normal nfactors old k (i * nfactors.toNat)) ?_ ?_ ?_
  · rw [Nat.zero_mul]
    exact Nat.zero_le _
  · intro i inside
    exact Nat.le_trans (Nat.mul_le_mul_right _ (Nat.le_succ i)) inside
  · intro i t here
    exact drawRow_ok word here

theorem resize_ok [Zero F] {v v' : List F} {n : Nat} :
    resize v n = .ok v' ↔ n ≤ maxSize ∧ v' = v.take n ++ List.replicate (n - v.length) 0 :=
  Softmax.resize_ok

theorem resize_nil_ok [Zero F] {v : List F} {n : Nat} : resize [] n = .ok v ↔ n ≤ maxSize ∧ v = List.replicate n 0 :=
  Softmax.resize_nil_ok

end Drawing

section Construction
variable {normal : UInt64 → Nat → F} {m m' : MFModel F}

theorem maxSize_lt : maxSize < 2 ^ 64 := by decide

theorem randomize_ok (users : m.userWeights.length ≤ maxSize) (items : m.itemWeights.length ≤ maxSize) :
    m.randomize normal = .ok m' ↔
      m.nusers.toNat * m.nfactors.toNat ≤ m.userWeights.length ∧
      m.nitems.toNat * m.nfactors.toNat ≤ m.itemWeights.length ∧
      m' = { m with
        userWeights := draws normal m.nfactors 0 (m.nusers.toNat * m.nfactors.toNat) ++
          m.userWeights.drop (m.nusers.toNat * m.nfactors.toNat)
        itemWeights := draws normal m.nfactors (m.nusers.toNat * m.nfactors.toNat) (m.nitems.toNat * m.nfactors.toNat) ++
          m.itemWeights.drop (m.nitems.toNat * m.nfactors.toNat) } := by
  have user := @drawRows_ok F normal m.nfactors m.userWeights 0 m.nusers (Nat.lt_of_le_of_lt users maxSize_lt)
  have item := @drawRows_ok F normal m.nfactors m.itemWeights (0 + m.nusers.toNat * m.nfactors.toNat) m.nitems
    (Nat.lt_of_le_of_lt items maxSize_lt)
  rw [Nat.zero_add] at item
  constructor
  · intro done
    obtain ⟨s, first, done⟩ := Loops.ok_of_bind done
    obtain ⟨manyUsers, rfl⟩ := user.mp first
    rw [drawn, Nat.zero_add] at done
    obtain ⟨t, second, same⟩ := Loops.ok_of_bind done
    obtain ⟨manyItems, rfl⟩ := item.mp second
    cases same
    exact ⟨manyUsers, manyItems, rfl⟩
  · rintro ⟨manyUsers, manyItems, rfl⟩
    have first := user.mpr ⟨manyUsers, rfl⟩
    rw [drawn, Nat.zero_add] at first
    rw [randomize, Loops.bind_of_ok first]
    dsimp only
    rw [Loops.bind_of_ok (item.mpr ⟨manyItems, rfl⟩)]
    rfl

variable [Zero F] [OfScientific F]

def fresh (normal : UInt64 → Nat → F) (users items nfactors : UInt64) : MFModel F where
  nusers := users
  nitems := items
  nfactors := nfactors
  userWeights := draws normal nfactors 0 (users.toNat * nfactors.toNat)
  itemWeights := draws normal nfactors (users.toNat * nfactors.toNat) (items.toNat * nfactors.toNat)
  userBias := List.replicate users.toNat 0
  itemBias := List.replicate items.toNat 0
  globalBias := initialGlobalBias

/-- The sizes for which there are vectors. A product that wraps is none of them. -/
structure Fits (users items nfactors : UInt64) : Prop where
  userCells : users.toNat * nfactors.toNat ≤ maxSize
  itemCells : items.toNat * nfactors.toNat ≤ maxSize
  fewUsers : users.toNat ≤ maxSize
  fewItems : items.toNat ≤ maxSize

theorem product_le (n nfactors : UInt64) : (n * nfactors).toNat ≤ n.toNat * nfactors.toNat := by
  rw [UInt64.toNat_mul]
  exact Nat.mod_le _ _

theorem product_eq {n nfactors : UInt64} (small : n.toNat * nfactors.toNat ≤ maxSize) :
    (n * nfactors).toNat = n.toNat * nfactors.toNat := by
  rw [UInt64.toNat_mul, Nat.mod_eq_of_lt (Nat.lt_of_le_of_lt small maxSize_lt)]

theorem initializeData_ok {users items nfactors : UInt64} :
    initializeData normal users items nfactors = .ok m ↔ Fits users items nfactors ∧ m = fresh normal users items nfactors := by
  constructor
  · intro built
    obtain ⟨userWeights, resized, built⟩ := Loops.ok_of_bind built
    obtain ⟨itemWeights, resized', built⟩ := Loops.ok_of_bind built
    obtain ⟨userBias, biases, built⟩ := Loops.ok_of_bind built
    obtain ⟨itemBias, biases', built⟩ := Loops.ok_of_bind built
    obtain ⟨small, rfl⟩ := resize_nil_ok.mp resized
    obtain ⟨small', rfl⟩ := resize_nil_ok.mp resized'
    obtain ⟨fewUsers, rfl⟩ := resize_nil_ok.mp biases
    obtain ⟨fewItems, rfl⟩ := resize_nil_ok.mp biases'
    rw [randomize_ok (by rw [List.length_replicate]; exact small) (by rw [List.length_replicate]; exact small')] at built
    obtain ⟨many, many', rfl⟩ := built
    rw [List.length_replicate] at many many'
    have whole := Nat.le_antisymm (product_le users nfactors) many
    have whole' := Nat.le_antisymm (product_le items nfactors) many'
    rw [whole] at small
    rw [whole'] at small'
    refine ⟨⟨small, small', fewUsers, fewItems⟩, ?_⟩
    dsimp only
    rw [whole, whole', List.drop_eq_nil_of_le (Nat.le_of_eq List.length_replicate),
      List.drop_eq_nil_of_le (Nat.le_of_eq List.length_replicate), List.append_nil, List.append_nil]
    rfl
  · rintro ⟨fits, rfl⟩
    have resized : ∀ {n}, n ≤ maxSize → resize ([] : List F) n = .ok (List.replicate n 0) := fun small =>
      resize_nil_ok.mpr ⟨small, rfl⟩
    rw [initializeData, product_eq fits.userCells, product_eq fits.itemCells, Loops.bind_of_ok (resized fits.userCells),
      Loops.bind_of_ok (resized fits.itemCells), Loops.bind_of_ok (resized fits.fewUsers),
      Loops.bind_of_ok (resized fits.fewItems), randomize_ok (by rw [List.length_replicate]; exact fits.userCells)
        (by rw [List.length_replicate]; exact fits.itemCells)]
    refine ⟨Nat.le_of_eq List.length_replicate.symm, Nat.le_of_eq List.length_replicate.symm, ?_⟩
    dsimp only
    rw [List.drop_eq_nil_of_le (Nat.le_of_eq List.length_replicate),
      List.drop_eq_nil_of_le (Nat.le_of_eq List.length_replicate), List.append_nil, List.append_nil]
    rfl

theorem copy_ok (kept : m.Kept) : m.copy normal = .ok (fresh normal m.nusers m.nitems m.nfactors) :=
  initializeData_ok.mpr ⟨⟨kept.users, kept.items, kept.fewUsers, kept.fewItems⟩, rfl⟩

theorem fresh_eq_iff (kept : m.Kept) : fresh normal m.nusers m.nitems m.nfactors = m ↔ m.AsDrawn normal := by
  have users := @eq_draws_iff F normal m.nfactors 0 m.userWeights
  have items := @eq_draws_iff F normal m.nfactors m.userWeights.length m.itemWeights
  simp only [Nat.zero_add] at users
  rw [kept.userWeights] at users items
  rw [kept.itemWeights] at items
  constructor
  · intro same
    have userBias : List.replicate m.nusers.toNat 0 = m.userBias := congrArg MFModel.userBias same
    have itemBias : List.replicate m.nitems.toNat 0 = m.itemBias := congrArg MFModel.itemBias same
    exact
      { userWeights := users.mp (congrArg MFModel.userWeights same)
        itemWeights := by
          rw [kept.userWeights]
          exact items.mp (congrArg MFModel.itemWeights same)
        userBias := fun x member => List.eq_of_mem_replicate (userBias ▸ member)
        itemBias := fun x member => List.eq_of_mem_replicate (itemBias ▸ member) }
  · intro asDrawn
    have itemWeights := asDrawn.itemWeights
    rw [kept.userWeights] at itemWeights
    have userBias := List.eq_replicate_iff.mpr ⟨kept.userBias, asDrawn.userBias⟩
    have itemBias := List.eq_replicate_iff.mpr ⟨kept.itemBias, asDrawn.itemBias⟩
    rw [fresh, users.mpr asDrawn.userWeights, items.mpr itemWeights, ← userBias, ← itemBias, ← kept.globalBias]

theorem fresh_kept {users items nfactors : UInt64} (fits : Fits users items nfactors) :
    (fresh normal users items nfactors).Kept where
  userBias := List.length_replicate
  itemBias := List.length_replicate
  userWeights := draws_length _
  itemWeights := draws_length _
  users := fits.userCells
  items := fits.itemCells
  fewUsers := fits.fewUsers
  fewItems := fits.fewItems
  globalBias := rfl

end Construction

section Loading
variable {w : Wire B F} {m own : MFModel F}

theorem counted_ends {S : Type} {turn : UInt32 → S → Decoder B S} {n : UInt64} {P : Nat → S → Prop}
    (round : ∀ k i s t memory rest, P k s → turn i s memory = .ok (t, rest) → P (k + 1) t) {s t : S}
    {memory rest : List B} (start : P 0 s) (done : counted n turn s memory = .ok (t, rest)) :
    n.toNat < 2 ^ 32 ∧ P n.toNat t := by
  rw [counted] at done
  split at done
  · rename_i small
    rw [foldlM_apply] at done
    have last := Loops.foldlM_ends (P := fun seen p => P seen.length p.1)
      (by
        intro seen i _ p q before one
        rw [List.length_append, List.length_singleton]
        exact round _ _ _ _ _ _ before one)
      start done
    rw [List.length_range] at last
    exact ⟨small, last⟩
  · cases ok_of_lift done

theorem counted_readBias_length {n : UInt64} {v v' : List F} {memory rest : List B}
    (done : counted n (readBias w) v memory = .ok (v', rest)) : v'.length = v.length := by
  refine (counted_ends (P := fun _ s => s.length = v.length) ?_ rfl done).2
  intro k i s t memory rest before one
  obtain ⟨x, _, _, one⟩ := Decoder.ok_of_bind one
  obtain ⟨_, rfl⟩ := setAt_ok.mp (ok_of_lift one)
  rw [List.length_set, before]

theorem counted_readRow_length {n nfactors : UInt64} {i : UInt32} {v v' : List F} {memory rest : List B}
    (done : counted n (readWeight w nfactors i) v memory = .ok (v', rest)) : n.toNat < 2 ^ 32 ∧ v'.length = v.length := by
  refine counted_ends (P := fun _ s => s.length = v.length) ?_ rfl done
  intro k i s t memory rest before one
  obtain ⟨x, _, _, one⟩ := Decoder.ok_of_bind one
  obtain ⟨_, rfl⟩ := setCheckedAt_ok.mp (ok_of_lift one)
  rw [List.length_set, before]

theorem counted_readRows_length {n nfactors : UInt64} {v v' : List F} {memory rest : List B}
    (size : v.length = (n * nfactors).toNat)
    (done : counted n (fun i => counted nfactors (readWeight w nfactors i)) v memory = .ok (v', rest)) :
    v'.length = n.toNat * nfactors.toNat ∧ (n * nfactors).toNat = n.toNat * nfactors.toNat := by
  obtain ⟨small, length, few⟩ := counted_ends
    (P := fun k s => s.length = v.length ∧ (0 < k → nfactors.toNat < 2 ^ 32))
    (by
      intro k i s t memory rest before one
      obtain ⟨few, length⟩ := counted_readRow_length one
      exact ⟨length.trans before.1, fun _ => few⟩)
    ⟨rfl, fun none => (Nat.lt_irrefl 0 none).elim⟩ done
  have word : n.toNat * nfactors.toNat < 2 ^ 64 := by
    rcases Nat.eq_zero_or_pos n.toNat with none | some_row
    · rw [none, Nat.zero_mul]
      decide
    · exact Nat.lt_of_lt_of_eq (Nat.mul_lt_mul'' small (few some_row)) (by decide)
  rw [length, size, UInt64.toNat_mul, Nat.mod_eq_of_lt word]
  exact ⟨rfl, rfl⟩

theorem resize_size [Zero F] {v v' : List F} {n : Nat} (done : resize v n = .ok v') : v'.length = n ∧ n ≤ maxSize := by
  obtain ⟨small, rfl⟩ := resize_ok.mp done
  exact ⟨Softmax.SoftmaxModel.resize_length 0 v n, small⟩

theorem loadInto_kept [Zero F] [OfScientific F] {memory rest : List B} (done : loadInto w own memory = .ok (m, rest)) :
    m.Kept := by
  obtain ⟨nusers, _, _, done⟩ := Decoder.ok_of_bind done
  obtain ⟨nitems, _, _, done⟩ := Decoder.ok_of_bind done
  obtain ⟨nfactors, _, _, done⟩ := Decoder.ok_of_bind done
  obtain ⟨userCells, _, sized, done⟩ := Decoder.ok_of_bind done
  obtain ⟨itemCells, _, sized', done⟩ := Decoder.ok_of_bind done
  obtain ⟨userRoom, _, sized'', done⟩ := Decoder.ok_of_bind done
  obtain ⟨itemRoom, _, sized''', done⟩ := Decoder.ok_of_bind done
  obtain ⟨userBias, _, read, done⟩ := Decoder.ok_of_bind done
  obtain ⟨itemBias, _, read', done⟩ := Decoder.ok_of_bind done
  obtain ⟨userWeights, _, read'', done⟩ := Decoder.ok_of_bind done
  obtain ⟨itemWeights, _, read''', same⟩ := Decoder.ok_of_bind done
  cases same
  obtain ⟨cells, small⟩ := resize_size (ok_of_lift sized)
  obtain ⟨cells', small'⟩ := resize_size (ok_of_lift sized')
  obtain ⟨room, few⟩ := resize_size (ok_of_lift sized'')
  obtain ⟨room', few'⟩ := resize_size (ok_of_lift sized''')
  obtain ⟨userLength, product⟩ := counted_readRows_length cells read''
  obtain ⟨itemLength, product'⟩ := counted_readRows_length cells' read'''
  exact
    { userBias := (counted_readBias_length read).trans room
      itemBias := (counted_readBias_length read').trans room'
      userWeights := userLength
      itemWeights := itemLength
      users := product ▸ small
      items := product' ▸ small'
      fewUsers := few
      fewItems := few'
      globalBias := rfl }

end Loading

section Updating
variable {w : Wire B F} {normal : UInt64 → Nat → F} {m m' : MFModel F}

theorem Kept.replaced [OfScientific F] (kept : m.Kept) {userBias itemBias userWeights itemWeights : List F}
    (users : userBias.length = m.userBias.length) (items : itemBias.length = m.itemBias.length)
    (userCells : userWeights.length = m.userWeights.length) (itemCells : itemWeights.length = m.itemWeights.length) :
    Kept { m with userBias := userBias, itemBias := itemBias, userWeights := userWeights, itemWeights := itemWeights } where
  userBias := users.trans kept.userBias
  itemBias := items.trans kept.itemBias
  userWeights := userCells.trans kept.userWeights
  itemWeights := itemCells.trans kept.itemWeights
  users := kept.users
  items := kept.items
  fewUsers := kept.fewUsers
  fewItems := kept.fewItems
  globalBias := kept.globalBias

theorem randomize_kept [OfScientific F] (kept : m.Kept) (done : m.randomize normal = .ok m') : m'.Kept := by
  rw [randomize_ok (kept.userWeights ▸ kept.users) (kept.itemWeights ▸ kept.items)] at done
  obtain ⟨_, _, rfl⟩ := done
  refine kept.replaced rfl rfl ?_ ?_
  · rw [List.length_append, draws_length, List.length_drop, kept.userWeights, Nat.sub_self, Nat.add_zero]
  · rw [List.length_append, draws_length, List.length_drop, kept.itemWeights, Nat.sub_self, Nat.add_zero]

section Adding
variable [Add F]

theorem addCheckedAt_length {v v' : List F} {i : Nat} {x : F} (done : addCheckedAt v i x = .ok v') :
    v'.length = v.length := by
  obtain ⟨y, _, same⟩ := Loops.ok_of_bind done
  cases same
  exact List.length_set

theorem addBiases_length {bias bias' : List F} {gradient : List (Int32 × F)} (done : addBiases bias gradient = .ok bias') :
    bias'.length = bias.length := by
  refine Loops.foldlM_ends (P := fun _ v => v.length = bias.length) ?_ rfl done
  intro _ e _ v v' before one
  rw [LR.addAt_length one, before]

theorem addVector_length {nfactors : UInt64} {weights weights' : List F} {e : Int32 × List F}
    (done : addVector nfactors weights e = .ok weights') : weights'.length = weights.length := by
  unfold addVector at done
  split at done
  · cases done
  · refine Loops.foldlM_ends (P := fun _ v => v.length = weights.length) ?_ rfl done
    intro _ x _ v v' before one
    rw [addCheckedAt_length one, before]

theorem addVectors_length {nfactors : UInt64} {weights weights' : List F} {gradient : List (Int32 × List F)}
    (done : gradient.foldlM (addVector nfactors) weights = .ok weights') : weights'.length = weights.length := by
  refine Loops.foldlM_ends (P := fun _ v => v.length = weights.length) ?_ rfl done
  intro _ e _ v v' before one
  rw [addVector_length one, before]

theorem sgdUpdate_kept [OfScientific F] {g : MFSparseGradient F} (kept : m.Kept) (done : m.sgdUpdate g = .ok m') :
    m'.Kept := by
  obtain ⟨userBias, users, done⟩ := Loops.ok_of_bind done
  obtain ⟨itemBias, items, done⟩ := Loops.ok_of_bind done
  obtain ⟨userWeights, userCells, done⟩ := Loops.ok_of_bind done
  obtain ⟨itemWeights, itemCells, same⟩ := Loops.ok_of_bind done
  cases same
  exact kept.replaced (addBiases_length users) (addBiases_length items) (addVectors_length userCells)
    (addVectors_length itemCells)

variable [OfScientific F] [Sub F] [Mul F]

theorem moveUser_kept {learningRate error reg : F} {user itemId : UInt64} (kept : m.Kept)
    (done : moveUser learningRate error reg user itemId m = .ok m') : m'.Kept := by
  refine Loops.foldlM_ends (P := fun _ m => m.Kept) ?_ kept done
  intro _ k _ m m' kept one
  obtain ⟨item, _, one⟩ := Loops.ok_of_bind one
  obtain ⟨user, _, one⟩ := Loops.ok_of_bind one
  obtain ⟨v, added, same⟩ := Loops.ok_of_bind one
  cases same
  exact kept.replaced rfl rfl (addCheckedAt_length added) rfl

theorem moveItem_kept {learningRate error reg : F} {user itemId : UInt64} (kept : m.Kept)
    (done : moveItem learningRate error reg user itemId m = .ok m') : m'.Kept := by
  refine Loops.foldlM_ends (P := fun _ m => m.Kept) ?_ kept done
  intro _ k _ m m' kept one
  obtain ⟨user, _, one⟩ := Loops.ok_of_bind one
  obtain ⟨item, _, one⟩ := Loops.ok_of_bind one
  obtain ⟨v, added, same⟩ := Loops.ok_of_bind one
  cases same
  exact kept.replaced rfl rfl rfl (addCheckedAt_length added)

theorem rate_kept {reg : Regularization F} {learningRate : F} {user : UInt64} {e : Int32 × F} (kept : m.Kept)
    (done : rate reg learningRate user m e = .ok m') : m'.Kept := by
  obtain ⟨pred, _, done⟩ := Loops.ok_of_bind done
  dsimp only at done
  split at done
  · cases done
  · obtain ⟨bias, _, done⟩ := Loops.ok_of_bind done
    obtain ⟨userBias, users, done⟩ := Loops.ok_of_bind done
    obtain ⟨bias', _, done⟩ := Loops.ok_of_bind done
    obtain ⟨itemBias, items, done⟩ := Loops.ok_of_bind done
    obtain ⟨moved, first, second⟩ := Loops.ok_of_bind done
    have biased := kept.replaced (LR.addAt_length users) (LR.addAt_length items) rfl rfl
    exact moveItem_kept (moveUser_kept biased first) second

theorem sgdUpdateDataset_kept {reg : Regularization F} {learningRate : F} {baseUser : UInt64} {ds : SparseDataset F}
    (kept : m.Kept) (done : m.sgdUpdateDataset reg learningRate baseUser ds = .ok m') : m'.Kept := by
  refine Loops.foldlM_ends (P := fun _ m => m.Kept) ?_ kept done
  intro _ sample _ m m' kept user
  refine Loops.foldlM_ends (P := fun _ m => m.Kept) ?_ kept user
  intro _ e _ m m' kept one
  exact rate_kept kept one

end Adding

variable [Zero F] [OfScientific F]

theorem constructed_kept (constructed : Constructed w normal m) : m.Kept := by
  cases constructed with
  | ofSizes built =>
    obtain ⟨fits, rfl⟩ := initializeData_ok.mp built
    exact fresh_kept fits
  | ofData built => exact loadInto_kept built

variable [Add F] [Sub F] [Mul F]

theorem update_kept {u : Update B F} (kept : m.Kept) (updated : m.update w normal u = some m') : m'.Kept := by
  cases u with
  | randomize => exact randomize_kept kept (ObjectClass.ok_of_toOption updated)
  | loadSerialized memory =>
    obtain ⟨_, loaded⟩ := ObjectClass.ok_of_map_toOption updated
    exact loadInto_kept loaded
  | sgdUpdate gradient => exact sgdUpdate_kept kept (ObjectClass.ok_of_toOption updated)
  | sgdUpdateDataset reg learningRate baseUser dataset =>
    exact sgdUpdateDataset_kept kept (ObjectClass.ok_of_toOption updated)

end Updating

section Copy
variable [Zero F] [Add F] [Sub F] [Mul F] [OfScientific F]

def objectClass (w : Wire B F) (normal : UInt64 → Nat → F) (ops : LossOps F) :
    ObjectClass Fault (MFModel F) (Update B F) (MFModel F)
      ((UInt32 → UInt32 → Except Fault F) × (SparseDataset F → UInt32 → Except Fault (F × UInt64))) where
  constructed := Constructed w normal
  update := update w normal
  copy := copy normal
  parameters m := m
  behaviour m := (m.predict, m.calcLoss ops)

variable {w : Wire B F} {normal : UInt64 → Nat → F} {ops : LossOps F} {m : MFModel F}

theorem reached_kept (reached : (objectClass w normal ops).Reached m) : m.Kept :=
  reached.keeps (fun _ constructed => constructed_kept constructed) fun _ _ _ kept updated => update_kept kept updated

theorem determined : (objectClass w normal ops).Determined := fun _ _ same => congrArg _ same

theorem copy_faithful_iff (reached : (objectClass w normal ops).Reached m) :
    (objectClass w normal ops).Faithful m ↔ m.AsDrawn normal := by
  have kept := reached_kept reached
  exact (determined.faithful_iff (copy_ok kept)).trans (fresh_eq_iff kept)

end Copy
end MFModel
end MF

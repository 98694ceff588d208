import Mathlib.Algebra.Ring.Basic
import Mathlib.Data.List.Induction
import Mathlib.Logic.Function.Basic

/- Matrix factorization by stochastic gradient descent, over users and items of any types: each has a
   bias and a vector of factors, and each rating moves those of its user and its item. -/
namespace Factorization
universe u v
variable {U : Type u} {I : Type v} {F : Type}

@[ext]
structure Params (U : Type u) (I : Type v) (F : Type) where
  userBias : U → F
  itemBias : I → F
  userFactors : U → Nat → F
  itemFactors : I → Nat → F

structure Regularization (F : Type) where
  itemFactors : F
  userFactors : F
  userBias : F
  itemBias : F
  deriving DecidableEq

structure Rating (U : Type u) (I : Type v) (F : Type) where
  user : U
  item : I
  value : F

structure Descent (F : Type) where
  factors : Nat
  globalBias : F
  rate : F
  reg : Regularization F

def predict [Add F] [Mul F] (factors : Nat) (globalBias : F) (p : Params U I F) (user : U) (item : I) : F :=
  (List.range factors).foldl (fun res k => res + p.userFactors user k * p.itemFactors item k)
    (globalBias + p.userBias user + p.itemBias item)

section Update
variable [Add F] [Sub F] [Mul F]

/-- What an update adds to a bias, and to a factor that is multiplied with `other`. -/
def biasDelta (rate error reg own : F) : F := rate * (error - reg * own)

def factorDelta (rate error reg other own : F) : F := rate * (error * other - reg * own)

namespace Descent

def error (d : Descent F) (p : Params U I F) (r : Rating U I F) : F :=
  r.value - predict d.factors d.globalBias p r.user r.item

def userBiasDelta (d : Descent F) (p : Params U I F) (r : Rating U I F) : F :=
  biasDelta d.rate (d.error p r) d.reg.userBias (p.userBias r.user)

def itemBiasDelta (d : Descent F) (p : Params U I F) (r : Rating U I F) : F :=
  biasDelta d.rate (d.error p r) d.reg.itemBias (p.itemBias r.item)

def userDelta (d : Descent F) (p : Params U I F) (r : Rating U I F) (k : Nat) : F :=
  factorDelta d.rate (d.error p r) d.reg.userFactors (p.itemFactors r.item k) (p.userFactors r.user k)

/-- The item's factors are moved with the factors that the user has by then. -/
def itemDelta (d : Descent F) (p : Params U I F) (r : Rating U I F) (k : Nat) : F :=
  factorDelta d.rate (d.error p r) d.reg.itemFactors (p.userFactors r.user k + d.userDelta p r k)
    (p.itemFactors r.item k)

variable [DecidableEq U] [DecidableEq I]

def move (d : Descent F) (p : Params U I F) (r : Rating U I F) : Params U I F where
  userBias := Function.update p.userBias r.user (p.userBias r.user + d.userBiasDelta p r)
  itemBias := Function.update p.itemBias r.item (p.itemBias r.item + d.itemBiasDelta p r)
  userFactors := Function.update p.userFactors r.user fun k => p.userFactors r.user k + d.userDelta p r k
  itemFactors := Function.update p.itemFactors r.item fun k => p.itemFactors r.item k + d.itemDelta p r k

section Moved
variable (d : Descent F) (p : Params U I F) (r : Rating U I F)

@[simp] theorem move_userBias_self :
    (d.move p r).userBias r.user = p.userBias r.user + d.userBiasDelta p r := Function.update_self _ _ _

@[simp] theorem move_itemBias_self :
    (d.move p r).itemBias r.item = p.itemBias r.item + d.itemBiasDelta p r := Function.update_self _ _ _

@[simp] theorem move_userFactors_self :
    (d.move p r).userFactors r.user = fun k => p.userFactors r.user k + d.userDelta p r k :=
  Function.update_self _ _ _

@[simp] theorem move_itemFactors_self :
    (d.move p r).itemFactors r.item = fun k => p.itemFactors r.item k + d.itemDelta p r k :=
  Function.update_self _ _ _

theorem move_user_ne {user : U} (apart : user ≠ r.user) :
    (d.move p r).userBias user = p.userBias user ∧ (d.move p r).userFactors user = p.userFactors user :=
  ⟨Function.update_of_ne apart _ _, Function.update_of_ne apart _ _⟩

theorem move_item_ne {item : I} (apart : item ≠ r.item) :
    (d.move p r).itemBias item = p.itemBias item ∧ (d.move p r).itemFactors item = p.itemFactors item :=
  ⟨Function.update_of_ne apart _ _, Function.update_of_ne apart _ _⟩

end Moved

def descend (d : Descent F) (p : Params U I F) (ratings : List (Rating U I F)) : Params U I F :=
  ratings.foldl d.move p

theorem descend_concat (d : Descent F) (p : Params U I F) (ratings : List (Rating U I F))
    (r : Rating U I F) : d.descend p (ratings ++ [r]) = d.move (d.descend p ratings) r :=
  List.foldl_append

theorem descend_append (d : Descent F) (p : Params U I F) (ratings ratings' : List (Rating U I F)) :
    d.descend p (ratings ++ ratings') = d.descend (d.descend p ratings) ratings' := List.foldl_append

theorem descend_user (d : Descent F) (p : Params U I F) {ratings : List (Rating U I F)} {user : U}
    (unrated : ∀ r ∈ ratings, r.user ≠ user) :
    (d.descend p ratings).userBias user = p.userBias user ∧
      (d.descend p ratings).userFactors user = p.userFactors user := by
  induction ratings generalizing p with
  | nil => exact ⟨rfl, rfl⟩
  | cons r rest ih =>
    obtain ⟨bias, own⟩ := ih (d.move p r) fun r member => unrated r (List.mem_cons_of_mem _ member)
    obtain ⟨bias', own'⟩ := d.move_user_ne p r (Ne.symm (unrated r List.mem_cons_self))
    exact ⟨bias.trans bias', own.trans own'⟩

theorem descend_item (d : Descent F) (p : Params U I F) {ratings : List (Rating U I F)} {item : I}
    (unrated : ∀ r ∈ ratings, r.item ≠ item) :
    (d.descend p ratings).itemBias item = p.itemBias item ∧
      (d.descend p ratings).itemFactors item = p.itemFactors item := by
  induction ratings generalizing p with
  | nil => exact ⟨rfl, rfl⟩
  | cons r rest ih =>
    obtain ⟨bias, own⟩ := ih (d.move p r) fun r member => unrated r (List.mem_cons_of_mem _ member)
    obtain ⟨bias', own'⟩ := d.move_item_ne p r (Ne.symm (unrated r List.mem_cons_self))
    exact ⟨bias.trans bias', own.trans own'⟩

end Descent
end Update

/-- The same parameters for these users and items, up to the number of factors. -/
structure Alike (factors : Nat) (users : U → Prop) (items : I → Prop) (p q : Params U I F) : Prop where
  userBias : ∀ u, users u → p.userBias u = q.userBias u
  itemBias : ∀ i, items i → p.itemBias i = q.itemBias i
  userFactors : ∀ u, users u → ∀ k < factors, p.userFactors u k = q.userFactors u k
  itemFactors : ∀ i, items i → ∀ k < factors, p.itemFactors i k = q.itemFactors i k

theorem Alike.refl (factors : Nat) (users : U → Prop) (items : I → Prop) (p : Params U I F) :
    Alike factors users items p p := ⟨fun _ _ => rfl, fun _ _ => rfl, fun _ _ _ _ => rfl, fun _ _ _ _ => rfl⟩

section Regularized
variable [Ring F]

theorem biasDelta_eq_iff (rate error reg reg' own : F) :
    biasDelta rate error reg own = biasDelta rate error reg' own ↔ rate * ((reg - reg') * own) = 0 := by
  rw [biasDelta, biasDelta, ← sub_eq_zero, ← mul_sub, sub_sub_sub_cancel_left, ← sub_mul, ← neg_eq_zero,
    ← mul_neg, ← neg_mul, neg_sub]

theorem factorDelta_eq_iff (rate error reg reg' other own : F) :
    factorDelta rate error reg other own = factorDelta rate error reg' other own ↔
      rate * ((reg - reg') * own) = 0 := biasDelta_eq_iff rate (error * other) reg reg' own

namespace Descent

def withReg (d : Descent F) (reg : Regularization F) : Descent F := { d with reg := reg }

/-- A rating that moves nothing differently under `reg`. -/
structure Harmless (d : Descent F) (reg : Regularization F) (p : Params U I F) (r : Rating U I F) : Prop where
  userBias : d.rate * ((d.reg.userBias - reg.userBias) * p.userBias r.user) = 0
  itemBias : d.rate * ((d.reg.itemBias - reg.itemBias) * p.itemBias r.item) = 0
  userFactors : ∀ k < d.factors, d.rate * ((d.reg.userFactors - reg.userFactors) * p.userFactors r.user k) = 0
  itemFactors : ∀ k < d.factors, d.rate * ((d.reg.itemFactors - reg.itemFactors) * p.itemFactors r.item k) = 0

variable {d : Descent F} {reg : Regularization F} {users : U → Prop} {items : I → Prop} {p q : Params U I F}
  {r : Rating U I F}

theorem error_alike (alike : Alike d.factors users items p q) (user : users r.user) (item : items r.item) :
    d.error p r = d.error q r := by
  have sums : ∀ (l : List Nat) start, (∀ k ∈ l, k < d.factors) →
      l.foldl (fun res k => res + p.userFactors r.user k * p.itemFactors r.item k) start =
        l.foldl (fun res k => res + q.userFactors r.user k * q.itemFactors r.item k) start := by
    intro l
    induction l with
    | nil => exact fun _ _ => rfl
    | cons k rest ih =>
      intro start below
      have first := below k List.mem_cons_self
      rw [List.foldl_cons, List.foldl_cons, alike.userFactors _ user k first, alike.itemFactors _ item k first]
      exact ih _ fun k member => below k (List.mem_cons_of_mem _ member)
  rw [error, error, predict, predict, alike.userBias _ user, alike.itemBias _ item,
    sums _ _ fun k member => List.mem_range.mp member]

section Deltas
variable (alike : Alike d.factors users items p q) (user : users r.user) (item : items r.item)
include alike user item

theorem userBiasDelta_iff : d.userBiasDelta p r = (d.withReg reg).userBiasDelta q r ↔
    d.rate * ((d.reg.userBias - reg.userBias) * p.userBias r.user) = 0 := by
  have error : (d.withReg reg).error q r = d.error p r := (error_alike alike user item).symm
  rw [userBiasDelta, userBiasDelta, error, ← alike.userBias _ user]
  exact biasDelta_eq_iff _ _ _ _ _

theorem itemBiasDelta_iff : d.itemBiasDelta p r = (d.withReg reg).itemBiasDelta q r ↔
    d.rate * ((d.reg.itemBias - reg.itemBias) * p.itemBias r.item) = 0 := by
  have error : (d.withReg reg).error q r = d.error p r := (error_alike alike user item).symm
  rw [itemBiasDelta, itemBiasDelta, error, ← alike.itemBias _ item]
  exact biasDelta_eq_iff _ _ _ _ _

theorem userDelta_iff {k : Nat} (below : k < d.factors) : d.userDelta p r k = (d.withReg reg).userDelta q r k ↔
    d.rate * ((d.reg.userFactors - reg.userFactors) * p.userFactors r.user k) = 0 := by
  have error : (d.withReg reg).error q r = d.error p r := (error_alike alike user item).symm
  rw [userDelta, userDelta, error, ← alike.userFactors _ user k below, ← alike.itemFactors _ item k below]
  exact factorDelta_eq_iff _ _ _ _ _ _

theorem itemDelta_iff {k : Nat} (below : k < d.factors)
    (same : d.userDelta p r k = (d.withReg reg).userDelta q r k) :
    d.itemDelta p r k = (d.withReg reg).itemDelta q r k ↔
      d.rate * ((d.reg.itemFactors - reg.itemFactors) * p.itemFactors r.item k) = 0 := by
  have error : (d.withReg reg).error q r = d.error p r := (error_alike alike user item).symm
  rw [itemDelta, itemDelta, error, ← same, ← alike.userFactors _ user k below,
    ← alike.itemFactors _ item k below]
  exact factorDelta_eq_iff _ _ _ _ _ _

variable [DecidableEq U] [DecidableEq I]

theorem move_alike_iff :
    Alike d.factors users items (d.move p r) ((d.withReg reg).move q r) ↔ d.Harmless reg p r := by
  constructor
  · intro after
    have userBias := after.userBias _ user
    have itemBias := after.itemBias _ item
    rw [move_userBias_self, move_userBias_self, alike.userBias _ user, add_right_inj] at userBias
    rw [move_itemBias_self, move_itemBias_self, alike.itemBias _ item, add_right_inj] at itemBias
    have userFactors : ∀ k < d.factors, d.userDelta p r k = (d.withReg reg).userDelta q r k := by
      intro k below
      have moved := after.userFactors _ user k below
      rw [move_userFactors_self, move_userFactors_self] at moved
      dsimp only at moved
      rw [alike.userFactors _ user k below] at moved
      exact add_left_cancel moved
    have itemFactors : ∀ k < d.factors, d.itemDelta p r k = (d.withReg reg).itemDelta q r k := by
      intro k below
      have moved := after.itemFactors _ item k below
      rw [move_itemFactors_self, move_itemFactors_self] at moved
      dsimp only at moved
      rw [alike.itemFactors _ item k below] at moved
      exact add_left_cancel moved
    exact
      { userBias := (userBiasDelta_iff alike user item).mp userBias
        itemBias := (itemBiasDelta_iff alike user item).mp itemBias
        userFactors := fun k below => (userDelta_iff alike user item below).mp (userFactors k below)
        itemFactors := fun k below =>
          (itemDelta_iff alike user item below (userFactors k below)).mp (itemFactors k below) }
  · intro harmless
    have userFactors : ∀ k < d.factors, d.userDelta p r k = (d.withReg reg).userDelta q r k :=
      fun k below => (userDelta_iff alike user item below).mpr (harmless.userFactors k below)
    constructor
    · intro u known
      by_cases same : u = r.user
      · rw [same, move_userBias_self, move_userBias_self, alike.userBias _ user,
          (userBiasDelta_iff alike user item).mpr harmless.userBias]
      · rw [(move_user_ne d p r same).1, (move_user_ne (d.withReg reg) q r same).1, alike.userBias u known]
    · intro i known
      by_cases same : i = r.item
      · rw [same, move_itemBias_self, move_itemBias_self, alike.itemBias _ item,
          (itemBiasDelta_iff alike user item).mpr harmless.itemBias]
      · rw [(move_item_ne d p r same).1, (move_item_ne (d.withReg reg) q r same).1, alike.itemBias i known]
    · intro u known k below
      by_cases same : u = r.user
      · rw [same, move_userFactors_self, move_userFactors_self]
        dsimp only
        rw [alike.userFactors _ user k below, userFactors k below]
      · rw [(move_user_ne d p r same).2, (move_user_ne (d.withReg reg) q r same).2,
          alike.userFactors u known k below]
    · intro i known k below
      by_cases same : i = r.item
      · rw [same, move_itemFactors_self, move_itemFactors_self]
        dsimp only
        rw [alike.itemFactors _ item k below,
          (itemDelta_iff alike user item below (userFactors k below)).mpr (harmless.itemFactors k below)]
      · rw [(move_item_ne d p r same).2, (move_item_ne (d.withReg reg) q r same).2,
          alike.itemFactors i known k below]

end Deltas

/-- Two descents stay alike exactly if every rating is harmless when its turn comes. -/
theorem descend_alike_iff [DecidableEq U] [DecidableEq I] {ratings : List (Rating U I F)}
    (inside : ∀ r ∈ ratings, users r.user ∧ items r.item) :
    (∀ seen, seen <+: ratings → Alike d.factors users items (d.descend p seen) ((d.withReg reg).descend p seen)) ↔
      ∀ seen r, seen ++ [r] <+: ratings → d.Harmless reg (d.descend p seen) r := by
  have here : ∀ {seen r}, seen ++ [r] <+: ratings → users r.user ∧ items r.item :=
    fun before => inside _ (before.subset (List.mem_append_right _ List.mem_cons_self))
  constructor
  · intro alike seen r before
    obtain ⟨user, item⟩ := here before
    have after := alike _ before
    rw [descend_concat, descend_concat] at after
    exact (move_alike_iff (alike _ ((List.prefix_append _ _).trans before)) user item).mp after
  · intro harmless seen
    induction seen using List.reverseRecOn with
    | nil => exact fun _ => .refl _ _ _ p
    | append_singleton seen r ih =>
      intro before
      obtain ⟨user, item⟩ := here before
      have alike := ih ((List.prefix_append _ _).trans before)
      rw [descend_concat, descend_concat]
      exact (move_alike_iff alike user item).mpr (harmless seen r before)

end Descent
end Regularized
end Factorization

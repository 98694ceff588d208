import Cirrus.LambdaData
import Cirrus.Lib.Loops
import Mathlib.Algebra.BigOperators.Ring.Finset

/-!
`hash_data`. The values of the chosen columns are counted in buckets, and the
other columns move up behind the buckets, in one dictionary for each row.
-/
namespace FeatureHashing
open LambdaData Loops
variable {F : Type}

/-- The numbers of Python that a row can hold. -/
inductive Number (F : Type)
  | int (n : Int)
  | float (x : F)
  deriving DecidableEq

/-- `number + 1` -/
def Number.succ [Add F] [One F] : Number F → Number F
  | .int n => .int (n + 1)
  | .float x => .float (x + 1)

def Number.toInt : Number F → Int
  | .int n => n
  | .float _ => 0

abbrev Row (F : Type) := List (Int × Number F)

/-- `a % b` -/
def pyMod (a b : Int) : Except Raised Int := if b = 0 then .error .zeroDivisionError else .ok (a.fmod b)

section Hashing
variable [Add F] [One F] (hash : Number F → Int) (colSet : List Int) (nBuckets : Int)

/-- A turn of the loop over a row. `hash` is `mmh3.hash(str(val), HASH_SEED, signed=False)`. -/
def hashEntry (rowMap : Dict Int (Number F)) (e : Int × Number F) : Except Raised (Dict Int (Number F)) :=
  if e.1 ∈ colSet then do
    let bucket ← pyMod (hash e.2) nBuckets
    let rowMap := if bucket ∈ rowMap.keys then rowMap else rowMap.set bucket (.int 0)
    let count ← lookup rowMap bucket
    .ok (rowMap.set bucket count.succ)
  else
    .ok (rowMap.set (nBuckets + e.1) e.2)

def hashRow (row : Row F) : Except Raised (Row F) := do
  let rowMap ← row.foldlM (hashEntry hash colSet nBuckets) .empty
  .ok rowMap.entries

/-- A turn of `for idx, row in enumerate(data)`, which ends where the list does. -/
def hashNext (data : Rows Int (Number F)) (idx : Nat) : Except Raised (Rows Int (Number F)) :=
  match data[idx]? with
  | some row => do
    let rowValues ← hashRow hash colSet nBuckets row
    .ok (data.set idx rowValues)
  | none => .ok data

def hashData (data : Rows Int (Number F)) (columns : List Int) (nBuckets : Int) : Except Raised (Rows Int (Number F)) :=
  (List.range data.length).foldlM (hashNext hash columns nBuckets) data

end Hashing

section Specification
variable (hash : Number F → Int) (colSet : List Int) (nBuckets : Int)

def selected (row : Row F) : Row F := row.filter fun e => e.1 ∈ colSet

def buckets (row : Row F) : List Int := (selected colSet row).map fun e => (hash e.2).fmod nBuckets

structure HashedRow (row row' : Row F) : Prop where
  distinct : (row'.map Prod.fst).Nodup
  kept : ∀ c v, 0 ≤ c → ((nBuckets + c, v) ∈ row' ↔ (c, v) ∈ row ∧ c ∉ colSet)
  counted : ∀ e ∈ row', (¬ ∃ c, e.1 = nBuckets + c ∧ (c, e.2) ∈ row ∧ c ∉ colSet) →
    (0 ≤ e.1 ∧ e.1 < nBuckets) ∧ 0 < (buckets hash colSet nBuckets row).count e.1 ∧
      e.2 = .int ((buckets hash colSet nBuckets row).count e.1)
  total : ((row'.filter fun e => e.1 < nBuckets).map fun e => e.2.toInt).sum = (selected colSet row).length
  apart : ∀ bucket ∈ buckets hash colSet nBuckets row, ∀ e ∈ row, e.1 ∉ colSet → bucket ≠ nBuckets + e.1

structure Columnar (row : Row F) : Prop where
  natural : ∀ e ∈ row, 0 ≤ e.1
  distinct : (row.map Prod.fst).Nodup

theorem Columnar.initial {seen row : Row F} (columnar : Columnar row) (here : seen <+: row) : Columnar seen where
  natural e member := columnar.natural e (here.subset member)
  distinct := columnar.distinct.sublist (here.sublist.map Prod.fst)

def Collected (seen : Row F) (rowMap : Dict Int (Number F)) : Prop :=
  ∀ k v, rowMap.get? k = some v ↔ (∃ c, k = nBuckets + c ∧ (c, v) ∈ seen ∧ c ∉ colSet) ∨
    (k ∈ buckets hash colSet nBuckets seen ∧ v = .int ((buckets hash colSet nBuckets seen).count k))

structure Replaced (data : Rows Int (Number F)) (n : Nat) (data' : Rows Int (Number F)) : Prop where
  length : data'.length = data.length
  rows : ∀ (idx : Nat) (row : Row F), data[idx]? = some row → ∃ row' : Row F, data'[idx]? = some row' ∧
    (idx < n → HashedRow hash colSet nBuckets row row') ∧ (n ≤ idx → row' = row)

end Specification

section Loop
variable {hash : Number F → Int} {colSet : List Int} {nBuckets : Int}

theorem bucket_inside (some_bucket : 1 ≤ nBuckets) {seen : Row F} {bucket : Int}
    (member : bucket ∈ buckets hash colSet nBuckets seen) : 0 ≤ bucket ∧ bucket < nBuckets := by
  obtain ⟨e, _, rfl⟩ := List.mem_map.mp member
  exact ⟨Int.fmod_nonneg_of_pos _ (by omega), Int.fmod_lt_of_pos _ (by omega)⟩

theorem buckets_selected (seen : Row F) {e : Int × Number F} (chosen : e.1 ∈ colSet) :
    buckets hash colSet nBuckets (seen ++ [e]) = buckets hash colSet nBuckets seen ++ [(hash e.2).fmod nBuckets] := by
  simp [buckets, selected, chosen]

theorem buckets_kept (seen : Row F) {e : Int × Number F} (kept : e.1 ∉ colSet) :
    buckets hash colSet nBuckets (seen ++ [e]) = buckets hash colSet nBuckets seen := by
  simp [buckets, selected, kept]

theorem kept_concat {seen : Row F} {e : Int × Number F} {k : Int} {v : Number F}
    (other : k = nBuckets + e.1 → ¬ e.1 ∉ colSet) :
    (∃ c, k = nBuckets + c ∧ (c, v) ∈ seen ++ [e] ∧ c ∉ colSet) ↔
      ∃ c, k = nBuckets + c ∧ (c, v) ∈ seen ∧ c ∉ colSet := by
  constructor
  · rintro ⟨c, place, member, kept⟩
    rcases List.mem_append.mp member with before | now
    · exact ⟨c, place, before, kept⟩
    · obtain rfl := List.mem_singleton.mp now
      exact absurd kept (other place)
  · rintro ⟨c, place, before, kept⟩
    exact ⟨c, place, List.mem_append_left _ before, kept⟩

theorem Collected.count {seen : Row F} (natural : ∀ e ∈ seen, 0 ≤ e.1)
    {rowMap : Dict Int (Number F)} (collected : Collected hash colSet nBuckets seen rowMap) {bucket : Int}
    (inside : bucket < nBuckets) :
    rowMap.get? bucket = if bucket ∈ buckets hash colSet nBuckets seen
      then some (.int ((buckets hash colSet nBuckets seen).count bucket)) else none := by
  have not_kept : ∀ v, ¬ ∃ c, bucket = nBuckets + c ∧ (c, v) ∈ seen ∧ c ∉ colSet := by
    rintro v ⟨c, same, member, _⟩
    have above := natural _ member
    omega
  split
  next hashed => exact (collected _ _).mpr (.inr ⟨hashed, rfl⟩)
  next absent =>
    apply Option.eq_none_iff_forall_ne_some.mpr
    intro v there
    rcases (collected _ _).mp there with kept | ⟨hashed, _⟩
    · exact not_kept v kept
    · exact absent hashed

variable [Add F] [One F]

theorem hashEntry_selected (some_bucket : 1 ≤ nBuckets) {seen : Row F} (natural : ∀ e ∈ seen, 0 ≤ e.1)
    {rowMap : Dict Int (Number F)} (collected : Collected hash colSet nBuckets seen rowMap) {e : Int × Number F}
    (chosen : e.1 ∈ colSet) :
    ∃ rowMap', hashEntry hash colSet nBuckets rowMap e = .ok rowMap' ∧ rowMap'.get? = Function.update rowMap.get?
      ((hash e.2).fmod nBuckets) (some (.int ((buckets hash colSet nBuckets seen).count ((hash e.2).fmod nBuckets) + 1))) := by
  have divides : pyMod (hash e.2) nBuckets = .ok ((hash e.2).fmod nBuckets) := if_neg (by omega)
  have count := collected.count natural (Int.fmod_lt_of_pos (hash e.2) (b := nBuckets) (by omega))
  generalize (hash e.2).fmod nBuckets = bucket at *
  unfold hashEntry
  rw [if_pos chosen, bind_of_ok divides]
  split at count
  next hashed =>
    have known : bucket ∈ rowMap.keys := Dict.mem_keys.mpr ⟨_, count⟩
    rw [if_pos known, bind_of_ok (lookup_eq_ok.mpr count)]
    exact ⟨_, rfl, Dict.get?_set ..⟩
  next absent =>
    have unknown : bucket ∉ rowMap.keys := by
      intro known
      obtain ⟨v, there⟩ := Dict.mem_keys.mp known
      rw [count] at there
      cases there
    have zero : (rowMap.set bucket (.int 0)).get? bucket = some (.int 0) := by rw [Dict.get?_set, Function.update_self]
    rw [if_neg unknown, bind_of_ok (lookup_eq_ok.mpr zero)]
    refine ⟨_, rfl, ?_⟩
    rw [Dict.get?_set, Dict.get?_set, Function.update_idem, List.count_eq_zero_of_not_mem absent]
    rfl

theorem hashEntry_collected (some_bucket : 1 ≤ nBuckets) {seen : Row F} {e : Int × Number F}
    (columnar : Columnar (seen ++ [e])) {rowMap : Dict Int (Number F)}
    (collected : Collected hash colSet nBuckets seen rowMap) :
    ∃ rowMap', hashEntry hash colSet nBuckets rowMap e = .ok rowMap' ∧
      Collected hash colSet nBuckets (seen ++ [e]) rowMap' := by
  have natural := List.forall_mem_append.mp columnar.natural
  by_cases chosen : e.1 ∈ colSet
  · obtain ⟨rowMap', done, values⟩ := hashEntry_selected some_bucket natural.1 collected chosen
    refine ⟨rowMap', done, fun k v => ?_⟩
    have inside : (hash e.2).fmod nBuckets < nBuckets := Int.fmod_lt_of_pos _ (by omega)
    rw [values, buckets_selected seen chosen]
    generalize (hash e.2).fmod nBuckets = bucket at *
    by_cases same : k = bucket
    · subst same
      have not_kept : ¬ ∃ c, k = nBuckets + c ∧ (c, v) ∈ seen ++ [e] ∧ c ∉ colSet := by
        rintro ⟨c, same, member, _⟩
        have above := columnar.natural _ member
        omega
      rw [Function.update_self, or_iff_right not_kept, List.count_append, List.count_singleton_self]
      simp [eq_comm]
    · rw [Function.update_of_ne same, collected k v, kept_concat fun _ kept => kept chosen, List.mem_append, List.mem_singleton,
        or_iff_left same, List.count_append, List.count_singleton, if_neg (by simpa using Ne.symm same), Nat.add_zero]
  · refine ⟨rowMap.set (nBuckets + e.1) e.2, if_neg chosen, fun k v => ?_⟩
    have apart : e.1 ∉ seen.map Prod.fst := by
      have distinct := columnar.distinct
      rw [List.map_append, List.nodup_append] at distinct
      exact fun before => distinct.2.2 e.1 before e.1 (List.mem_singleton.mpr rfl) rfl
    rw [Dict.get?_set, buckets_kept seen chosen]
    by_cases same : k = nBuckets + e.1
    · subst same
      have not_bucket : nBuckets + e.1 ∉ buckets hash colSet nBuckets seen := by
        intro member
        have above := columnar.natural e (List.mem_append_right _ (List.mem_singleton.mpr rfl))
        have below := bucket_inside some_bucket member
        omega
      rw [Function.update_self]
      constructor
      · intro value
        cases value
        exact .inl ⟨e.1, rfl, List.mem_append_right _ (List.mem_singleton.mpr rfl), chosen⟩
      · rintro (⟨c, place, member, _⟩ | ⟨bucket, _⟩)
        · obtain rfl : e.1 = c := by omega
          rcases List.mem_append.mp member with before | now
          · exact absurd (List.mem_map.mpr ⟨_, before, rfl⟩) apart
          · exact congrArg (fun e => some e.2) (List.mem_singleton.mp now).symm
        · exact absurd bucket not_bucket
    · rw [Function.update_of_ne same, collected k v, kept_concat fun place _ => same place]

theorem hashRow_gives (some_bucket : 1 ≤ nBuckets) {row : Row F} (columnar : Columnar row) :
    ∃ rowMap, hashRow hash colSet nBuckets row = .ok rowMap.entries ∧ Collected hash colSet nBuckets row rowMap := by
  have start : Collected hash colSet nBuckets [] .empty := by
    intro k v
    simp [buckets, selected]
  obtain ⟨rowMap, done, collected⟩ := foldlM_gives (P := Collected hash colSet nBuckets)
    (fun seen e here s before => hashEntry_collected some_bucket (columnar.initial here) before) start
  exact ⟨rowMap, bind_of_ok done _, collected⟩

end Loop

section Rows
variable {hash : Number F → Int} {colSet : List Int} {nBuckets : Int}

theorem Collected.bucket_keys (some_bucket : 1 ≤ nBuckets) {row : Row F} (natural : ∀ e ∈ row, 0 ≤ e.1)
    {rowMap : Dict Int (Number F)} (collected : Collected hash colSet nBuckets row rowMap) :
    ((rowMap.entries.filter fun e => e.1 < nBuckets).map Prod.fst).Perm (buckets hash colSet nBuckets row).dedup := by
  have distinct : ((rowMap.entries.filter fun e => e.1 < nBuckets).map Prod.fst).Nodup :=
    rowMap.nodup.sublist (List.filter_sublist.map Prod.fst)
  apply (List.perm_ext_iff_of_nodup distinct (List.nodup_dedup _)).mpr
  intro k
  rw [List.mem_map, List.mem_dedup]
  constructor
  · rintro ⟨e, member, rfl⟩
    obtain ⟨there, below⟩ := List.mem_filter.mp member
    have count := collected.count natural (of_decide_eq_true below)
    rw [Dict.get?_eq_some.mpr there] at count
    split at count
    next hashed => exact hashed
    next => cases count
  · intro hashed
    have below := (bucket_inside some_bucket hashed).2
    have count := collected.count natural below
    rw [if_pos hashed] at count
    exact ⟨_, List.mem_filter.mpr ⟨Dict.get?_eq_some.mp count, decide_eq_true below⟩, rfl⟩

theorem Collected.hashedRow (some_bucket : 1 ≤ nBuckets) {row : Row F} (columnar : Columnar row)
    {rowMap : Dict Int (Number F)} (collected : Collected hash colSet nBuckets row rowMap) :
    HashedRow hash colSet nBuckets row rowMap.entries where
  distinct := rowMap.nodup
  kept c v natural := by
    have not_bucket : nBuckets + c ∉ buckets hash colSet nBuckets row := by
      intro member
      have below := bucket_inside some_bucket member
      omega
    rw [← Dict.get?_eq_some, collected, or_iff_left fun hashed => not_bucket hashed.1]
    constructor
    · rintro ⟨c', place, member, kept⟩
      obtain rfl : c = c' := by omega
      exact ⟨member, kept⟩
    · exact fun ⟨member, kept⟩ => ⟨c, rfl, member, kept⟩
  counted e member unkept := by
    rcases (collected e.1 e.2).mp (Dict.get?_eq_some.mpr member) with kept | ⟨hashed, value⟩
    · exact absurd kept unkept
    · exact ⟨bucket_inside some_bucket hashed, List.count_pos_iff.mpr hashed, value⟩
  total := by
    have keys := collected.bucket_keys some_bucket columnar.natural
    have values : (rowMap.entries.filter fun e => e.1 < nBuckets).map (fun e => e.2.toInt) =
        (((rowMap.entries.filter fun e => e.1 < nBuckets).map Prod.fst).map
          fun k => (buckets hash colSet nBuckets row).count k).map Nat.cast := by
      rw [List.map_map, List.map_map]
      apply List.map_congr_left
      intro e member
      obtain ⟨there, below⟩ := List.mem_filter.mp member
      have count := collected.count columnar.natural (of_decide_eq_true below)
      rw [Dict.get?_eq_some.mpr there] at count
      split at count
      next => rw [Option.some.inj count, Number.toInt, Function.comp_apply, Function.comp_apply]
      next => cases count
    have sum := (keys.map fun k => (buckets hash colSet nBuckets row).count k).sum_eq
    rw [List.sum_map_count_dedup_eq_length] at sum
    rw [values, ← Nat.cast_list_sum, sum, buckets, List.length_map]
  apart bucket member e there kept := by
    have inside := bucket_inside some_bucket member
    have natural := columnar.natural e there
    omega

variable [Add F] [One F]

theorem replaced_next (some_bucket : 1 ≤ nBuckets) {data data' : Rows Int (Number F)} {idx : Nat} (inside : idx < data.length)
    (columnar : ∀ row ∈ data, Columnar row) (replaced : Replaced hash colSet nBuckets data idx data') :
    ∃ data'', hashNext hash colSet nBuckets data' idx = .ok data'' ∧
      Replaced hash colSet nBuckets data (idx + 1) data'' := by
  have here : data[idx]? = some data[idx] := List.getElem?_eq_getElem inside
  obtain ⟨now, found, _, still⟩ := replaced.rows idx _ here
  obtain rfl := still (Nat.le_refl idx)
  have whole := columnar _ (List.getElem_mem inside)
  obtain ⟨rowMap, done, collected⟩ : ∃ rowMap, hashRow hash colSet nBuckets data[idx] = .ok rowMap.entries ∧
    Collected hash colSet nBuckets data[idx] rowMap := hashRow_gives some_bucket whole
  refine ⟨data'.set idx rowMap.entries, ?_, ?_, ?_⟩
  · unfold hashNext
    rw [found]
    exact bind_of_ok done _
  · rw [List.length_set, replaced.length]
  · intro k row there
    obtain ⟨row', there', before, after⟩ := replaced.rows k row there
    by_cases same : k = idx
    · subst same
      obtain rfl := Option.some.inj (here.symm.trans there)
      refine ⟨rowMap.entries, ?_, fun _ => collected.hashedRow some_bucket whole, fun below => by omega⟩
      rw [List.getElem?_set_self (by rw [replaced.length]; exact inside)]
    · refine ⟨row', ?_, fun below => before (by omega), fun above => after (by omega)⟩
      rw [List.getElem?_set_ne (Ne.symm same)]
      exact there'

theorem hashData_rows (hash : Number F → Int) (columns : List Int) (nBuckets : Int) (data : Rows Int (Number F))
    (some_bucket : 1 ≤ nBuckets) (columnar : ∀ row ∈ data, Columnar row) :
    ∃ data', hashData hash data columns nBuckets = .ok data' ∧ data'.length = data.length ∧
      ∀ (idx : Nat) (row : Row F), data[idx]? = some row →
        ∃ row', data'[idx]? = some row' ∧ HashedRow hash columns nBuckets row row' := by
  have start : Replaced hash columns nBuckets data 0 data :=
    ⟨rfl, fun idx row there => ⟨row, there, fun below => absurd below (Nat.not_lt_zero idx), fun _ => rfl⟩⟩
  obtain ⟨data', done, replaced⟩ := foldlM_gives (l := List.range data.length)
    (P := fun seen data' => Replaced hash columns nBuckets data seen.length data')
    (fun seen idx here data' before => by
      obtain ⟨rfl, inside⟩ := eq_length_of_prefix_range here
      rw [List.length_append, List.length_singleton]
      exact replaced_next some_bucket inside columnar before) start
  refine ⟨data', done, replaced.length, fun idx row there => ?_⟩
  obtain ⟨row', there', hashed, _⟩ := replaced.rows idx row there
  rw [List.length_range] at hashed
  exact ⟨row', there', hashed (List.getElem?_eq_some_iff.mp there).1⟩

theorem three_columns_hashed : ∃ data', hashData (fun _ : Number Int => 6) [[(0, .int 7), (1, .float 5), (4, .int 9)]] [0, 4] 4 =
    .ok data' ∧ data'.length = 1 ∧
      ∀ (idx : Nat) (row : Row Int), [[(0, .int 7), (1, .float 5), (4, .int 9)]][idx]? = some row →
        ∃ row', data'[idx]? = some row' ∧ HashedRow (fun _ : Number Int => 6) [0, 4] 4 row row' :=
  hashData_rows (fun _ : Number Int => 6) [0, 4] 4 [[(0, .int 7), (1, .float 5), (4, .int 9)]] (by decide)
    (List.forall_mem_singleton.mpr ⟨by decide, by decide⟩)

example : hashData (fun _ : Number Int => 6) [[(0, .int 7), (1, .float 5), (4, .int 9)]] [0, 4] 4 =
    .ok [[(2, .int 2), (5, .float 5)]] := rfl

end Rows
end FeatureHashing

import Cirrus.MinMaxRuns

/-!
`min_max_scaler`, with its pass over the objects `_bounds` for when there is no
Redis. An exception in a Lambda ends the Lambda and not the scaler; one in
`no_redis_alternative` ends the scaler.
-/
namespace MinMax
open LambdaData Transition
variable {C I F : Type}

/-- The buckets and Redis. `keys` are those of the chunks as the input bucket lists them, and `data` what
`get_data_from_s3` decodes. `readBack` is a history: what `get_global_bounds` has returned for each chunk. -/
structure Store (C F : Type) where
  keys : List C
  data : C → Rows Int F
  bounds : C → Option (Bounds Text F)
  finalBounds : C → Option (Bounds Text F)
  output : C → Option (Rows Text F)
  redis : Text → Option F
  readBack : C → Option (Bounds Text (Option F))

/-- The arguments of `min_max_scaler` with the defaults of the last four. -/
structure Arguments (C F : Type) where
  lower : F
  upper : F
  objects : List C
  useRedis : Bool := true
  dryRun : Bool := false
  skipBounds : Bool := false
  deleteRedisKeys : Bool := true

/-- The chunks whose keys have no `_`. Every other object of the bucket is deleted. -/
def getAllKeys (key : C → Text) (s : Store C F) : Store C F × List C :=
  let finalObjects := s.keys.filter fun chunk => '_' ∉ key chunk
  ({ s with keys := finalObjects, bounds := fun _ => none, finalBounds := fun _ => none }, finalObjects)

def chooseObjects (key : C → Text) (objects : List C) (s : Store C F) : Store C F × List C :=
  if objects.isEmpty then getAllKeys key s else (s, objects)

section Scaler
variable [LinearOrder F] [DecidableEq C]

/-- `put_bounds_in_db`. Without Redis the client is `None` and has no `register_script`. -/
def putBoundsInDb (useRedis : Bool) (keyslot : Text → Nat) (bounds : Bounds Int F) (chunk : C) (s : Store C F) :
    Store C F × Except Raised Unit :=
  let s := { s with finalBounds := Function.update s.finalBounds chunk (some (json bounds)) }
  if useRedis then
    match getKeysValues bounds with
    | .ok kvs =>
      let push (bound : Bound) (redis : Text → Option F) :=
        (slotBatches keyslot (kvs bound)).foldl bound.better.pushAll redis
      ({ s with redis := push .min (push .max s.redis) }, .ok ())
    | .error fault => (s, .error fault)
  else (s, .error .attributeError)

/-- `get_global_bounds`. Without Redis the client has no `mget` either. -/
def getGlobalBounds (useRedis : Bool) (chunk : C) (s : Store C F) : Except Raised (Bounds Text (Option F)) := do
  let bounds ← match s.finalBounds chunk with
    | some bounds => pure bounds
    | none => .error .noSuchKey
  let original := (bounds .max).keys
  if useRedis then
    let maxV ← mget s.redis .max original
    let minV ← mget s.redis .min original
    pure (finalBounds original (both maxV minV))
  else .error .attributeError

def localBounds (useRedis : Bool) (keyslot : Text → Nat) (s : Store C F) (chunk : C) : Store C F × Except Raised Unit :=
  putBoundsInDb useRedis keyslot (getDataBounds (s.data chunk)) chunk s

def localScale [Field F] (args : Arguments C F) (s : Store C F) (chunk : C) : Store C F × Except Raised Unit :=
  match getGlobalBounds args.useRedis chunk s with
  | .ok bounds =>
    let s := { s with readBack := Function.update s.readBack chunk (some bounds) }
    match scaleData (s.data chunk) bounds args.lower args.upper with
    | .ok rows => ({ s with output := Function.update s.output chunk (some rows) }, .ok ())
    | .error fault => (s, .error fault)
  | .error fault => (s, .error fault)

def getBounds (s : Store C F) (chunk : C) : Except Raised (Bounds Text F) :=
  match s.bounds chunk with
  | some bounds => .ok bounds
  | none => .error .noSuchKey

/-- A bound of one object in the global map: the minimum first, then the maximum. -/
def addRange (bound : Bound) (fRanges : Dict Text (F × F)) (e : Text × F) : Dict Text (F × F) :=
  let (lo, hi) := (fRanges.get? e.1).getD (e.2, e.2)
  fRanges.set e.1 (match bound with
    | .min => (if e.2 < lo then e.2 else lo, hi)
    | .max => (lo, if hi < e.2 then e.2 else hi))

def globalEntries (fRanges : Dict Text (F × F)) (pick : F × F → F) (d : Dict Text F) : Except Raised (Dict Text F) :=
  d.keys.foldlM (fun d idx => do
    let range ← lookup fRanges idx
    pure (d.set idx (pick range))) d

/-- The first loop of `no_redis_alternative`: the minimum and the maximum of each column. -/
def globalRanges (objects : List C) (s : Store C F) : Except Raised (Dict Text (F × F)) :=
  objects.foldlM (fun fRanges chunk => do
    let localMap ← getBounds s chunk
    let fRanges := (localMap .min).entries.foldl (addRange .min) fRanges
    pure ((localMap .max).entries.foldl (addRange .max) fRanges)) Dict.empty

/-- The second loop: each local map with the global ranges. -/
def updateLocalMaps (fRanges : Dict Text (F × F)) (objects : List C) (s : Store C F) : Except Raised (Store C F) :=
  objects.foldlM (fun s chunk => do
    let localMap ← getBounds s chunk
    let minimum ← globalEntries fRanges Prod.fst (localMap .min)
    let maximum ← globalEntries fRanges Prod.snd (localMap .max)
    pure { s with finalBounds := Function.update s.finalBounds chunk (some (both maximum minimum)) }) s

def noRedisAlternative (objects : List C) (s : Store C F) : Except Raised (Store C F) := do
  let fRanges ← globalRanges objects s
  updateLocalMaps fRanges objects s

def deleteMaps (useRedis : Bool) (s : Store C F) (chunk : C) : Store C F :=
  { s with
    bounds := Function.update s.bounds chunk none
    finalBounds := if useRedis then s.finalBounds else Function.update s.finalBounds chunk none }

def minMaxScaler [Field F] (args : Arguments C F) (key : C → Text) (keyslot : Text → Nat) (s : Store C F) :
    Except Raised (Store C F) := do
  let (s, objects) := chooseObjects key args.objects s
  let s := if args.deleteRedisKeys then { s with redis := fun _ => none } else s
  let s := if args.skipBounds then s else launchThreads (localBounds args.useRedis keyslot) objects s
  let s ← if args.useRedis then pure s else noRedisAlternative objects s
  let s := if args.dryRun then s else launchThreads (localScale args) objects s
  pure (objects.foldl (deleteMaps args.useRedis) s)

end Scaler

/-- Nothing was read back and nothing was written to the output bucket. -/
def NothingScaled (s t : Store C F) : Prop := t.readBack = s.readBack ∧ t.output = s.output

theorem NothingScaled.trans {s t u : Store C F} (first : NothingScaled s t) (second : NothingScaled t u) :
    NothingScaled s u :=
  ⟨second.1.trans first.1, second.2.trans first.2⟩

/-- Without its client a Lambda that scales ends before it has the bounds. -/
theorem getGlobalBounds_without (chunk : C) (s : Store C F) : ∃ fault, getGlobalBounds false chunk s = .error fault := by
  unfold getGlobalBounds
  cases s.finalBounds chunk with
  | none => exact ⟨.noSuchKey, rfl⟩
  | some bounds => exact ⟨.attributeError, rfl⟩

section WithoutRedis
variable [DecidableEq C]

theorem deleteMaps_nothing (useRedis : Bool) (objects : List C) (s : Store C F) :
    NothingScaled s (objects.foldl (deleteMaps useRedis) s) := by
  induction objects generalizing s with
  | nil => exact ⟨rfl, rfl⟩
  | cons chunk objects ih => exact ih (deleteMaps useRedis s chunk)

omit [DecidableEq C] in
theorem chooseObjects_nothing (key : C → Text) (objects : List C) (s : Store C F) :
    NothingScaled s (chooseObjects key objects s).1 := by
  unfold chooseObjects
  split
  · exact ⟨rfl, rfl⟩
  · exact ⟨rfl, rfl⟩

theorem updateLocalMaps_nothing {fRanges : Dict Text (F × F)} {objects : List C} {s t : Store C F}
    (done : updateLocalMaps fRanges objects s = .ok t) : NothingScaled s t := by
  unfold updateLocalMaps at done
  induction objects generalizing s with
  | nil =>
    cases done
    exact ⟨rfl, rfl⟩
  | cons chunk objects ih =>
    rw [List.foldlM_cons] at done
    obtain ⟨next, first, rest⟩ := Loops.ok_of_bind done
    obtain ⟨localMap, _, first⟩ := Loops.ok_of_bind first
    obtain ⟨minimum, _, first⟩ := Loops.ok_of_bind first
    obtain ⟨maximum, _, same⟩ := Loops.ok_of_bind first
    cases same
    have later := ih rest
    exact later

variable [LinearOrder F]

theorem noRedisAlternative_nothing {objects : List C} {s t : Store C F} (done : noRedisAlternative objects s = .ok t) :
    NothingScaled s t := by
  obtain ⟨fRanges, _, updated⟩ := Loops.ok_of_bind done
  exact updateLocalMaps_nothing updated

variable [Field F]

theorem localScale_nothing {args : Arguments C F} (without : args.useRedis = false) (s : Store C F) (chunk : C) :
    NothingScaled s (localScale args s chunk).1 := by
  obtain ⟨fault, failed⟩ := getGlobalBounds_without chunk s
  unfold localScale
  rw [without, failed]
  exact ⟨rfl, rfl⟩

theorem scaler_without_redis {args : Arguments C F} (without : args.useRedis = false) {key : C → Text}
    {keyslot : Text → Nat} {s t : Store C F} (done : minMaxScaler args key keyslot s = .ok t) : NothingScaled s t := by
  have listed := chooseObjects_nothing key args.objects s
  unfold minMaxScaler at done
  generalize chooseObjects key args.objects s = chosen at done listed
  obtain ⟨s₀, objects⟩ := chosen
  dsimp only at done listed
  rw [without] at done
  obtain ⟨u, alternative, last⟩ := Loops.ok_of_bind done
  cases last
  have start : NothingScaled s (if args.deleteRedisKeys then { s₀ with redis := fun _ => none } else s₀) := by
    split
    · exact listed
    · exact listed
  have bounds : ∀ v, NothingScaled s v →
      NothingScaled s (if args.skipBounds then v else launchThreads (localBounds false keyslot) objects v) := by
    intro v before
    split
    · exact before
    · exact launchThreads_keeps (fun w chunk so_far => so_far.trans ⟨rfl, rfl⟩) objects before
  have scale : ∀ v, NothingScaled s v →
      NothingScaled s (if args.dryRun then v else launchThreads (localScale args) objects v) := by
    intro v before
    split
    · exact before
    · exact launchThreads_keeps (fun w chunk so_far => so_far.trans (localScale_nothing without w chunk)) objects before
  have pass := (bounds _ start).trans (noRedisAlternative_nothing alternative)
  exact (scale u pass).trans (deleteMaps_nothing false objects _)

/-- Nothing writes the objects `_bounds`, so the scaler ends at the first that is not there. -/
theorem first_bounds_missing {args : Arguments C F} (without : args.useRedis = false) {key : C → Text}
    (keyslot : Text → Nat) {s s₀ : Store C F} {chunk : C} {rest : List C}
    (chosen : chooseObjects key args.objects s = (s₀, chunk :: rest)) (missing : s₀.bounds chunk = none) :
    minMaxScaler args key keyslot s = .error .noSuchKey := by
  have start : (if args.deleteRedisKeys then { s₀ with redis := fun _ => none } else s₀).bounds = s₀.bounds := by
    split
    · rfl
    · rfl
  unfold minMaxScaler
  rw [chosen]
  dsimp only
  generalize (if args.deleteRedisKeys then { s₀ with redis := fun _ => none } else s₀) = s₁ at start ⊢
  have kept : (if args.skipBounds then s₁ else launchThreads (localBounds false keyslot) (chunk :: rest) s₁).bounds =
      s₀.bounds := by
    split
    · exact start
    · exact launchThreads_keeps (P := fun v : Store C F => v.bounds = s₀.bounds) (fun w chunk so_far => so_far) _ start
  rw [without]
  generalize (if args.skipBounds then s₁ else _) = u at kept ⊢
  have ends : globalRanges (chunk :: rest) u = .error .noSuchKey := by
    unfold globalRanges getBounds
    rw [List.foldlM_cons, kept, missing]
    rfl
  unfold noRedisAlternative
  rw [ends]
  rfl

theorem scaler_of_no_chunks {args : Arguments C F} (without : args.useRedis = false) {key : C → Text}
    (keyslot : Text → Nat) {s : Store C F} (chosen : (chooseObjects key args.objects s).2 = []) :
    ∃ t, minMaxScaler args key keyslot s = .ok t := by
  unfold minMaxScaler
  generalize chooseObjects key args.objects s = result at chosen
  obtain ⟨s₀, chunks⟩ := result
  cases chosen
  dsimp only
  rw [without]
  exact ⟨_, rfl⟩

variable [DecidableEq I]

def Scaling.store (sys : Scaling C I F) (keys : List C) (bounds finalBounds : C → Option (Bounds Text F)) (output : C → Option (Rows Text F))
    (redis : Text → Option F) : Store C F where
  keys := keys
  data := sys.data
  bounds := bounds
  finalBounds := finalBounds
  output := output
  redis := redis
  readBack _ := none

/-- Each chunk has read back the bounds, and has the scaled rows, of every run that has Redis. -/
def AsWithRedis (sys : Scaling C I F) (objects : List C) (t : Store C F) : Prop :=
  ∀ chunk ∈ objects, ∃ bounds, t.readBack chunk = some bounds ∧
    ∀ s : State C I F, Reachable sys.step AtStart sys.InOrder s → ∀ i, sys.job i = .scale chunk →
      (∀ bounds', s.place i = .scaling bounds' → bounds' = bounds) ∧ (s.place i = .done → t.output chunk = s.output chunk)

def Scaling.arguments (sys : Scaling C I F) (objects : List C) : Arguments C F where
  lower := sys.minV
  upper := sys.maxV
  objects := objects
  useRedis := false

def chunksToScale (key : C → Text) (objects keys : List C) : List C :=
  if objects.isEmpty then keys.filter fun chunk => '_' ∉ key chunk else objects

theorem as_with_redis_iff (sys : Scaling C I F) (key : C → Text) (objects keys : List C)
    (bounds finalBounds : C → Option (Bounds Text F)) (output : C → Option (Rows Text F)) (redis : Text → Option F) :
    (∃ t, minMaxScaler (sys.arguments objects) key sys.keyslot (sys.store keys bounds finalBounds output redis) = .ok t ∧
      AsWithRedis sys (chunksToScale key objects keys) t) ↔ chunksToScale key objects keys = [] := by
  constructor
  · rintro ⟨t, done, same⟩
    have nothing := scaler_without_redis rfl done
    cases chunks : chunksToScale key objects keys with
    | nil => rfl
    | cons chunk rest =>
      obtain ⟨bounds, read, _⟩ := same chunk (chunks ▸ List.mem_cons_self)
      rw [nothing.1] at read
      cases read
  · intro none
    have chosen : (chooseObjects key objects (sys.store keys bounds finalBounds output redis)).2 = [] := by
      rw [← none]
      unfold chooseObjects chunksToScale
      split
      · rfl
      · rfl
    have without : (sys.arguments objects).useRedis = false := rfl
    obtain ⟨t, done⟩ := scaler_of_no_chunks without sys.keyslot chosen
    rw [none]
    exact ⟨t, done, nofun⟩

end WithoutRedis

theorem one_chunk_fails : ¬ ∃ t, minMaxScaler (twoChunks.arguments []) (fun _ => ['0']) twoChunks.keyslot
    (twoChunks.store [0] (fun _ => none) (fun _ => none) (fun _ => none) fun _ => none) = .ok t ∧
      AsWithRedis twoChunks [0] t := by
  rintro ⟨t, done, _⟩
  cases done

end MinMax

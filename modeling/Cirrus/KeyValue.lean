import Cirrus.ServerInterface

/-!
The key-value operations over whole sequences of calls. Each client has a
connection of its own and a call is made, and its request handled, before the
next one begins; what an end leaves unread stays on the stream.
-/
namespace KeyValue
open Gradients SparseLR ServerTask ServerInterface Stream Stream.Prog
variable {B F : Type}

/-- A key as `std::string`: 1 to KEY_SIZE bytes, none of them 0. -/
structure Key (w : Wire B F) where
  bytes : List B
  some_byte : bytes ≠ []
  short : bytes.length ≤ keySize
  no_nul : w.nul ∉ bytes

/-- A block of memory whose size is a `uint32_t`. -/
structure Value (B : Type) where
  bytes : List B
  small : bytes.length < 2 ^ 32

inductive Request (w : Wire B F) where
  | set (key : Key w) (value : Value B)
  | get (key : Key w)

structure Call (w : Wire B F) where
  client : Nat
  request : Request w

/-- What a call of `set_value` or `get_value` returns: nothing, or the value found. -/
abbrev Returned (B : Type) := Option (List B)

def Request.ask {w : Wire B F} : Request w → Prog B (Returned B)
  | .set key value => do
    setValue w key.bytes value.bytes
    pure none
  | .get key => getValue w key.bytes

/-- A connection between calls: what each end has not read yet, and whether the server has closed it. -/
structure Link (B : Type) where
  connected : Bool := true
  up : List B := []
  down : List B := []

structure World (B F : Type) where
  server : Server B F
  links : Nat → Link B

section Asking
variable {w : Wire B F}

/-- The value of the last `set_value` of a key, in calls of which the last comes first. -/
def lastSet (key : List B) [DecidableEq B] : List (Call w) → Option (List B)
  | [] => none
  | call :: earlier =>
    match call.request with
    | .set k value => if k.bytes = key then some value.bytes else lastSet key earlier
    | .get _ => lastSet key earlier

def message : Request w → List B
  | .set key value => w.u32.put PsOp.setValue.code ++ (keyChars w key.bytes ++
      (w.u32.put (UInt32.ofNat value.bytes.length) ++ value.bytes))
  | .get key => w.u32.put PsOp.getValue.code ++ (keyChars w key.bytes ++ [])

theorem keyChars_length (key : Key w) : (keyChars w key.bytes).length = keySize := by
  rw [keyChars, List.length_append, List.length_replicate]
  have := key.short
  omega

theorem cString_key [DecidableEq B] (key : Key w) (padding : List B) :
    cString w (keyChars w key.bytes ++ w.nul :: padding) = key.bytes := by
  have inside : ∀ b ∈ key.bytes, decide (b ≠ w.nul) = true := by
    intro b member
    rw [decide_eq_true_eq]
    intro same
    exact key.no_nul (same ▸ member)
  rw [cString, keyChars, List.append_assoc, List.takeWhile_append_of_pos inside]
  cases keySize - key.bytes.length with
  | zero => simp
  | succ n => simp [List.replicate_succ]

theorem ask_speaks_first (request : Request w) : SpeaksFirst request.ask := by
  cases request with
  | set key value =>
    rw [Request.ask, setValue, if_neg (not_not.mpr key.short)]
    trivial
  | get key =>
    rw [Request.ask, getValue, if_neg (not_not.mpr key.short), speaksFirst_say, speaksFirst_say,
      speaksFirst_read]
    intro cells
    cases cells with
    | none => trivial
    | some size =>
      dsimp only
      split
      · trivial
      · intro value
        cases value <;> trivial

theorem set_asks (key : Key w) (value : Value B) :
    Talks (Request.ask (.set key value)) [] (message (.set key value)) none := by
  have sent : Talks (setValue w key.bytes value.bytes) [] (message (.set key value)) () := by
    rw [setValue, if_neg (not_not.mpr key.short)]
    apply Talks.say
    apply Talks.say
    apply Talks.say
    exact .sendAll _
  have whole := sent.bind (f := fun _ => pure (none : Returned B)) (.pure none)
  rwa [List.append_nil, List.append_nil] at whole

theorem get_begins {A : Type} (key : Key w) (f : Option (List B) → Prog B A) {takes : List B} {a : A}
    (heard : Talks (Prog.readAll 4 >>= f) takes [] a) :
    Talks (do
      sendAll (w.u32.put PsOp.getValue.code)
      sendAll (keyChars w key.bytes)
      Prog.readAll 4 >>= f) takes (message (.get key)) a :=
  .say _ (.say _ heard)

theorem get_asks (key : Key w) {value : List B} (some_byte : value ≠ [])
    (small : value.length < 2 ^ 32) :
    Talks (Request.ask (.get key)) (w.u32.put (UInt32.ofNat value.length) ++ value)
      (message (.get key)) (some value) := by
  have size : (UInt32.ofNat value.length).toNat = value.length := UInt32.toNat_ofNat_of_lt' small
  have positive := List.length_pos_iff.mpr some_byte
  have nonzero : UInt32.ofNat value.length ≠ 0 := by
    intro zero
    rw [zero] at size
    exact absurd size (by simp; omega)
  rw [Request.ask, getValue, if_neg (not_not.mpr key.short)]
  apply get_begins key
  apply Talks.read (w.u32.put_length _) (by decide)
  dsimp only
  rw [w.u32.get_put, if_neg nonzero, size, ← List.append_nil value]
  apply Talks.read (by simp) (by simpa using positive)
  rw [List.append_nil]
  exact .pure _

theorem get_waits (key : Key w) (byte : B) :
    (run (Request.ask (.get key)) [byte]).result = none := by
  rw [Request.ask, getValue, if_neg (not_not.mpr key.short)]
  rfl

/-- Between calls: nothing is under way on any connection, and the map holds what was set last. -/
structure Settled [DecidableEq B] (earlier : List (Call w)) (world : World B F) : Prop where
  fresh : ∀ client, world.links client = {}
  stored : ∀ key : Key w, world.server.keyValueMap.lookup key.bytes =
    (lastSet key.bytes earlier).map fun value => (UInt32.ofNat value.length, value)
  sound : ∀ (key : Key w) value, lastSet key.bytes earlier = some value →
    value ≠ [] ∧ value.length < 2 ^ 32

theorem settled_start [DecidableEq B] {world : World B F} (links : world.links = fun _ => {})
    (empty : world.server.keyValueMap = ∅) : Settled ([] : List (Call w)) world where
  fresh := fun client => by rw [links]
  stored := fun key => by rw [empty]; rfl
  sound := nofun

theorem update_fresh {world : World B F} (fresh : ∀ client, world.links client = {}) (client : Nat) :
    ∀ other, Function.update world.links client {} other = {} := by
  intro other
  rcases Classical.em (other = client) with rfl | different
  · exact Function.update_self _ _ _
  · rw [Function.update_of_ne different, fresh]

end Asking

section Calls
variable [Zero F] [One F] [Add F] [Sub F] [Mul F] [Div F] [FloatOps F] [DecidableEq B]
  {w : Wire B F}

/-- A call and the handling of its request by a worker. The outcome of the call is nothing if the
client still waits for bytes. -/
def makeCall (worker : Worker B) (world : World B F) (call : Call w) :
    World B F × Option (Except Fault (Returned B)) :=
  let link := world.links call.client
  if link.connected then
    let asked := run call.request.ask link.down
    let answered := run (gradientF w worker world.server) (link.up ++ asked.sent)
    let heard := run call.request.ask (link.down ++ answered.sent)
    match answered.result with
    | some (.ok served) =>
      let link : Link B :=
        { connected := served.connected, up := answered.unread, down := heard.unread }
      ({ server := served.server, links := Function.update world.links call.client link }, heard.result)
    | _ => (world, none)
  else (world, some (.error (.exception "Error sending operation")))

def expected (earlier : List (Call w)) (call : Call w) : Returned B :=
  match call.request with
  | .set _ _ => none
  | .get key => lastSet key.bytes earlier

/-- Every call returns what it should and leaves its connection open, with both ends at the same
position of each stream. -/
def Faithful (workers : Nat → Worker B) : World B F → List (Call w) → List (Call w) → Prop
  | _, _, [] => True
  | world, earlier, call :: rest =>
    let (after, outcome) := makeCall (workers earlier.length) world call
    outcome = some (.ok (expected earlier call)) ∧ after.links call.client = {} ∧
      Faithful workers after (call :: earlier) rest

/-- A value that is set has some byte; a key that is asked for has been set before. -/
def CleanCall (earlier : List (Call w)) (call : Call w) : Prop :=
  match call.request with
  | .set _ value => value.bytes ≠ []
  | .get key => lastSet key.bytes earlier ≠ none

def Clean : List (Call w) → List (Call w) → Prop
  | _, [] => True
  | earlier, call :: rest => CleanCall earlier call ∧ Clean (call :: earlier) rest

def Server.store (s : Server B F) (key : Key w) (value : Value B) : Server B F :=
  { s with keyValueMap :=
      s.keyValueMap.insert key.bytes (UInt32.ofNat value.bytes.length, value.bytes) }

theorem set_serves (worker : Worker B) (s : Server B F) (key : Key w) {value : Value B}
    (some_byte : value.bytes ≠ []) :
    Talks (gradientF w worker s) (message (.set key value)) []
      { server := Server.store s key value } := by
  have size : (UInt32.ofNat value.bytes.length).toNat = value.bytes.length :=
    UInt32.toNat_ofNat_of_lt' value.small
  apply gradientF_read worker s rfl
  apply Talks.read (keyChars_length key) (by decide)
  apply Talks.read (w.u32.put_length _) (by decide)
  dsimp only
  rw [w.u32.get_put, size, ← List.append_nil value.bytes]
  apply Talks.read (by simp) (by simpa using List.length_pos_iff.mpr some_byte)
  dsimp only
  rw [List.append_nil, cString_key]
  exact .pure _

theorem set_empty_serves (worker : Worker B) (s : Server B F) (key : Key w) {value : Value B}
    (empty : value.bytes = []) :
    Talks (gradientF w worker s) (message (.set key value)) []
      { server := { s with numConnections := s.numConnections - 1 }, connected := false } := by
  apply gradientF_read worker s rfl
  apply Talks.read (keyChars_length key) (by decide)
  rw [empty, List.length_nil]
  apply Talks.read (w.u32.put_length _) (by decide)
  dsimp only
  rw [w.u32.get_put]
  exact .read_none (.pure _)

theorem get_serves (worker : Worker B) (s : Server B F) (key : Key w) {size : UInt32} {value : List B}
    (found : s.keyValueMap.lookup key.bytes = some (size, value)) :
    Talks (gradientF w worker s) (message (.get key)) (w.u32.put size ++ value) { server := s } := by
  rw [← List.append_nil (w.u32.put size ++ value), List.append_assoc]
  apply gradientF_read worker s rfl
  apply Talks.read (keyChars_length key) (by decide)
  dsimp only
  rw [cString_key, found]
  exact .say _ (.say _ (.pure _))

theorem get_miss_serves (worker : Worker B) (s : Server B F) (key : Key w)
    (missing : s.keyValueMap.lookup key.bytes = none) :
    Talks (gradientF w worker s) (message (.get key)) ((w.u32.put 0).take 1) { server := s } := by
  rw [← List.append_nil ((w.u32.put 0).take 1)]
  apply gradientF_read worker s rfl
  apply Talks.read (keyChars_length key) (by decide)
  dsimp only
  rw [cString_key, missing]
  exact .say _ (.pure _)

theorem makeCall_of_talks (worker : Worker B) (world : World B F) (call : Call w)
    {reply : List B} {v : Returned B} {served : Served B F} (fresh : world.links call.client = {})
    (asks : Talks call.request.ask reply (message call.request) v)
    (serves : Talks (gradientF w worker world.server) (message call.request) reply served) :
    makeCall worker world call =
      ({ server := served.server
         links := Function.update world.links call.client { connected := served.connected } },
        some (.ok v)) := by
  have sent := congrArg Progress.sent (asks [])
  rw [speaksFirst_sent (ask_speaks_first call.request)] at sent
  have answered := serves []
  have heard := asks []
  rw [List.append_nil] at answered heard
  simp only [makeCall, fresh, List.nil_append, sent, answered, heard, if_true]

theorem settled_call {earlier : List (Call w)} {world : World B F} (worker : Worker B)
    (settled : Settled earlier world) {call : Call w} (clean : CleanCall earlier call) :
    (makeCall worker world call).2 = some (.ok (expected earlier call)) ∧
      (makeCall worker world call).1.links call.client = {} ∧
      Settled (call :: earlier) (makeCall worker world call).1 := by
  obtain ⟨client, request⟩ := call
  cases request with
  | set key value =>
    have made := makeCall_of_talks worker world ⟨client, .set key value⟩ (settled.fresh client)
      (set_asks key value) (set_serves worker world.server key clean)
    rw [made]
    refine ⟨rfl, Function.update_self _ _ _, ⟨update_fresh settled.fresh client, ?_, ?_⟩⟩
    · intro other
      rcases Classical.em (key.bytes = other.bytes) with same | different
      · simp [Server.store, lastSet, same]
      · have apart : other.bytes ≠ key.bytes := Ne.symm different
        simp [Server.store, lastSet, different, AList.lookup_insert_ne apart, settled.stored]
    · intro other found last
      rw [lastSet] at last
      dsimp only at last
      split at last
      · cases last
        exact ⟨clean, value.small⟩
      · exact settled.sound other found last
  | get key =>
    obtain ⟨value, last⟩ := Option.ne_none_iff_exists'.mp clean
    obtain ⟨some_byte, small⟩ := settled.sound key value last
    have found := settled.stored key
    rw [last] at found
    have made := makeCall_of_talks worker world ⟨client, .get key⟩ (settled.fresh client)
      (get_asks key some_byte small) (get_serves worker world.server key found)
    rw [made]
    refine ⟨?_, Function.update_self _ _ _, ⟨update_fresh settled.fresh client, settled.stored, settled.sound⟩⟩
    rw [expected]
    exact congrArg (some <| Except.ok ·) last.symm

theorem unclean_call {earlier : List (Call w)} {world : World B F} (worker : Worker B)
    (settled : Settled earlier world) {call : Call w} (unclean : ¬ CleanCall earlier call) :
    ¬ ((makeCall worker world call).2 = some (.ok (expected earlier call)) ∧
      (makeCall worker world call).1.links call.client = {}) := by
  obtain ⟨client, request⟩ := call
  rintro ⟨returned, link⟩
  cases request with
  | set key value =>
    have empty : value.bytes = [] := not_not.mp unclean
    have made := makeCall_of_talks worker world ⟨client, .set key value⟩ (settled.fresh client)
      (set_asks key value) (set_empty_serves worker world.server key empty)
    rw [made] at link
    dsimp only at link
    rw [Function.update_self] at link
    cases congrArg Link.connected link
  | get key =>
    have missing := settled.stored key
    rw [not_not.mp unclean] at missing
    have served := get_miss_serves worker world.server key missing []
    have some_byte : [w.nul] ≠ [] := List.cons_ne_nil _ _
    have sent := congrArg Progress.sent (get_asks key some_byte (by simp) [])
    rw [speaksFirst_sent (ask_speaks_first (.get key))] at sent
    rw [List.append_nil] at served
    have one : ∃ byte, (w.u32.put 0).take 1 = [byte] := by
      have length := w.u32.put_length 0
      obtain ⟨byte, rest, cells⟩ := List.exists_cons_of_length_eq_add_one length
      exact ⟨byte, by rw [cells]; rfl⟩
    obtain ⟨byte, one⟩ := one
    rw [one] at served
    simp only [makeCall, settled.fresh client, List.nil_append, sent, served, if_true,
      get_waits] at returned
    cases returned

theorem faithful_iff {earlier : List (Call w)} {world : World B F} (workers : Nat → Worker B)
    (settled : Settled earlier world) (calls : List (Call w)) :
    Faithful workers world earlier calls ↔ Clean earlier calls := by
  induction calls generalizing earlier world with
  | nil => exact Iff.rfl
  | cons call rest ih =>
    constructor
    · rintro ⟨returned, link, later⟩
      have clean : CleanCall earlier call := by
        apply Classical.byContradiction
        intro unclean
        exact unclean_call _ settled unclean ⟨returned, link⟩
      exact ⟨clean, (ih (settled_call _ settled clean).2.2).mp later⟩
    · rintro ⟨clean, later⟩
      obtain ⟨returned, link, settled'⟩ := settled_call (workers earlier.length) settled clean
      exact ⟨returned, link, (ih settled').mpr later⟩

/-- On a server that starts with an empty store, every call of a sequence does what it should
exactly if no empty value is set and no key is asked for before it is set. -/
theorem key_value_store (workers : Nat → Worker B) (world : World B F)
    (links : world.links = fun _ => {}) (empty : world.server.keyValueMap = ∅)
    (calls : List (Call w)) : Faithful workers world [] calls ↔ Clean [] calls :=
  faithful_iff workers (settled_start links empty) calls

end Calls

section Runs

def freshWorld : World UInt8 UInt32 where
  server := .start 1 1 1 (.sgd 0) 0x4066A7F0
  links _ := {}

def freshWorkers : Nat → Worker UInt8 := fun _ => .fresh Wire.littleEndian

def testKey : Key Wire.littleEndian where
  bytes := [107, 101, 121]
  some_byte := by decide
  short := by decide
  no_nul := by decide

theorem missing_key_never_answered :
    ¬ ∀ (workers : Nat → Worker UInt8) (world : World UInt8 UInt32)
      (calls : List (Call Wire.littleEndian)), world.links = (fun _ => {}) →
      world.server.keyValueMap = ∅ → Faithful workers world [] calls := by
  intro always
  have faithful := always freshWorkers freshWorld [⟨0, .get testKey⟩] rfl rfl
  have clean := (faithful_iff _ (settled_start rfl rfl) _).mp faithful
  exact clean.1 rfl

theorem value_read_back :
    Faithful freshWorkers freshWorld []
      [⟨0, .set testKey ⟨[1, 2, 3], by decide⟩⟩, ⟨1, .get testKey⟩] := by
  apply (key_value_store freshWorkers freshWorld rfl rfl _).mpr
  refine ⟨?_, ?_, trivial⟩
  · exact (by decide : ([1, 2, 3] : List UInt8) ≠ [])
  · exact (by decide : (some [1, 2, 3] : Option (List UInt8)) ≠ none)

end Runs
end KeyValue

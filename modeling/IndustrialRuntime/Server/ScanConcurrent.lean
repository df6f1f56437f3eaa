import IndustrialRuntime.Lib.Machine
import IndustrialRuntime.Server.ScanIteration

namespace IndustrialRuntime.Irsp

open IndustrialRuntime.Core

namespace CoreTagSource

variable {hash : Bytes → UInt64}

/-- The part of `scan` that follows the snapshot. -/
def scanGathered (gathered : List TagValue) (cursor pattern : Bytes) (count : UInt64) :
    ScanResult :=
  let start := if cursor = zero then [] else cursor
  let limit := batchLimit count
  let found := gathered.filter
    (fun tag => decide (start < tag.name) && TopicMatcher.matches pattern tag.name)
  let names := (found.map TagValue.name).insertionSort (· ≤ ·)
  if names.length ≤ limit then ⟨zero, names⟩
  else ⟨((names.take limit).getLast?).getD [], names.take limit⟩

theorem scan_eq_scanGathered (engine : TagEngine hash) :
    scan engine = scanGathered engine.snapshot := rfl
/-- The source of a call whose snapshot was gathered shard by shard while the engine changed. -/
def gatheredSource (hash : Bytes → UInt64) : TagSource (TagEngine hash × List TagValue) where
  read store := read store.1
  contains store := store.1.contains
  scan store := scanGathered store.2

end CoreTagSource

/-- A `SCAN` in progress: its count, the next shard that `snapshot` reads, and what it has read. -/
structure ScanCall where
  count : Option UInt64
  shard : Nat
  gathered : List TagValue

/-- A client iterates over an engine that others change. -/
structure ScanRun (hash : Bytes → UInt64) where
  engine : TagEngine hash
  cursor : Bytes
  call : Option ScanCall
  returned : List Bytes
  finished : Bool

inductive ScanAction where
  | write (tag : TagValue)
  | remove (name : Bytes)
  | request (count : Option UInt64)
  | readShard
  /-- The reply is made under the dispatcher of that moment. -/
  | reply (dispatcher : Dispatcher)

namespace ScanRun

open CoreTagSource

variable {hash : Bytes → UInt64}

/-- Before the first call. -/
def begin (engine : TagEngine hash) : ScanRun hash where
  engine := engine
  cursor := zero
  call := none
  returned := []
  finished := false

/-- `TagEngine::snapshot` locks one shard after the other. -/
def readShard (s : ScanRun hash) (call : ScanCall) : Option (ScanRun hash) :=
  if more : call.shard < 16 then
    some { s with call := some { call with
      shard := call.shard + 1
      gathered := call.gathered ++ TagEngine.shardTags (s.engine.shards ⟨call.shard, more⟩) } }
  else none

/-- What the client makes of the reply. -/
def receive (s : ScanRun hash) (reply : IrspValue) : Option (ScanRun hash) :=
  (scanReply reply).map fun r => { s with
    cursor := r.1
    call := none
    returned := s.returned ++ r.2
    finished := decide (r.1 = zero) }

def step (id : SubscriberId) (pattern : Bytes) (s : ScanRun hash) :
    ScanAction → Option (ScanRun hash)
  | .write tag => some { s with engine := (s.engine.writeImpl tag).2 }
  | .remove name => some { s with engine := (s.engine.remove name).2 }
  | .request count =>
    match s.call with
    | none => if s.finished then none else some { s with call := some ⟨count, 0, []⟩ }
    | some _ => none
  | .readShard =>
    match s.call with
    | none => none
    | some call => s.readShard call
  | .reply d =>
    match s.call with
    | none => none
    | some call =>
      if call.shard < 16 then none
      else s.receive (d.handle (gatheredSource hash) none ⟨id, true⟩ (s.engine, call.gathered)
        (scanCommand s.cursor pattern call.count)).reply

def machine (id : SubscriberId) (pattern : Bytes) (engine : TagEngine hash) :
    Machine (ScanRun hash) ScanAction :=
  ⟨begin engine, step id pattern⟩

/-- A topic is stored. -/
def Stores (s : ScanRun hash) (name : Bytes) : Prop := (s.engine.lookup name).isSome = true

instance decidableStores (s : ScanRun hash) (name : Bytes) : Decidable (s.Stores name) :=
  inferInstanceAs (Decidable (_ = true))

/-- The names up to here have been dealt with. -/
def start (s : ScanRun hash) : Bytes := if s.cursor = zero then [] else s.cursor

end ScanRun

/-! ### One batch -/

section Batch

variable {α : Type*} [LinearOrder α]

/-- The first part of an ascending list ends below what it leaves out. -/
theorem ascending_take {names : List α} (ascending : names.Pairwise (· < ·)) {limit : Nat}
    {last : α}
    (ends : (names.take limit).getLast? = some last) :
    (∀ x ∈ names.take limit, x ≤ last) ∧ ∀ x ∈ names, x ∈ names.take limit ∨ last < x := by
  have whole := List.take_append_drop limit names
  rw [← whole, List.pairwise_append] at ascending
  obtain ⟨first, _, apart⟩ := ascending
  have split := List.dropLast_append_getLast? last ends
  constructor
  · intro x taken
    rw [← split, List.mem_append, List.mem_singleton] at taken
    rcases taken with earlier | same
    · rw [← split, List.pairwise_append] at first
      exact (first.2.2 x earlier last (List.mem_singleton_self _)).le
    · exact same.le
  · intro x listed
    rw [← whole, List.mem_append] at listed
    rcases listed with taken | dropped
    · exact .inl taken
    · exact .inr (apart last (List.mem_of_getLast? ends) x dropped)

end Batch

namespace CoreTagSource

/-- A stored name that a call looks for. -/
def Found (gathered : List TagValue) (cursor pattern name : Bytes) : Prop :=
  name ∈ gathered.map TagValue.name ∧ (if cursor = zero then [] else cursor) < name ∧
    TopicMatcher.matches pattern name

variable {gathered : List TagValue} {cursor pattern : Bytes} {count : UInt64}

/-- The names that a call sorts. -/
def foundNames (gathered : List TagValue) (cursor pattern : Bytes) : List Bytes :=
  ((gathered.filter (fun tag => decide ((if cursor = zero then [] else cursor) < tag.name) &&
    TopicMatcher.matches pattern tag.name)).map TagValue.name).insertionSort (· ≤ ·)

theorem mem_foundNames (name : Bytes) :
    name ∈ foundNames gathered cursor pattern ↔ Found gathered cursor pattern name := by
  rw [foundNames, List.mem_insertionSort, List.mem_map]
  simp only [Found, List.mem_filter, Bool.and_eq_true, decide_eq_true_eq, List.mem_map]
  constructor
  · rintro ⟨tag, ⟨listed, above, fits⟩, rfl⟩
    exact ⟨⟨tag, listed, rfl⟩, above, fits⟩
  · rintro ⟨⟨tag, listed, rfl⟩, above, fits⟩
    exact ⟨tag, ⟨listed, above, fits⟩, rfl⟩

theorem foundNames_ascending (distinct : (gathered.map TagValue.name).Nodup) :
    (foundNames gathered cursor pattern).Pairwise (· < ·) := by
  have sorted : (foundNames gathered cursor pattern).Pairwise (· ≤ ·) :=
    List.pairwise_insertionSort _ _
  have once : (foundNames gathered cursor pattern).Nodup := by
    rw [foundNames, (List.perm_insertionSort _ _).nodup_iff]
    exact distinct.sublist (List.filter_sublist.map _)
  exact (sorted.and once).imp (fun h => lt_of_le_of_ne h.1 h.2)

/-- What one call returns: the last batch, or a batch that ends at the next cursor. -/
inductive Returns (gathered : List TagValue) (cursor pattern : Bytes) : ScanResult → Prop
  | all (names : List Bytes) (ascending : names.Pairwise (· < ·))
      (found : ∀ name, name ∈ names ↔ Found gathered cursor pattern name) :
      Returns gathered cursor pattern ⟨zero, names⟩
  | more (names : List Bytes) (last : Bytes) (ascending : names.Pairwise (· < ·))
      (found : ∀ name ∈ names, Found gathered cursor pattern name) (ends : last ∈ names)
      (top : ∀ name ∈ names, name ≤ last)
      (rest : ∀ name, Found gathered cursor pattern name → name ∈ names ∨ last < name) :
      Returns gathered cursor pattern ⟨last, names⟩

theorem returns_scanGathered (distinct : (gathered.map TagValue.name).Nodup) :
    Returns gathered cursor pattern (scanGathered gathered cursor pattern count) := by
  have ascending : (foundNames gathered cursor pattern).Pairwise (· < ·) :=
    foundNames_ascending distinct
  have result : scanGathered gathered cursor pattern count =
      if (foundNames gathered cursor pattern).length ≤ batchLimit count then
        ⟨zero, foundNames gathered cursor pattern⟩
      else ⟨(((foundNames gathered cursor pattern).take (batchLimit count)).getLast?).getD [],
        (foundNames gathered cursor pattern).take (batchLimit count)⟩ := rfl
  rw [result]
  split_ifs with short
  · exact .all _ ascending mem_foundNames
  · have positive := batchLimit_pos count
    have nonempty : (foundNames gathered cursor pattern).take (batchLimit count) ≠ [] := by
      intro empty
      have none := congrArg List.length empty
      rw [List.length_take, List.length_nil] at none
      omega
    obtain ⟨last, ends⟩ := Option.isSome_iff_exists.mp (List.getLast?_isSome.mpr nonempty)
    obtain ⟨top, rest⟩ := ascending_take ascending ends
    rw [ends, Option.getD_some]
    refine .more _ last (ascending.sublist (List.take_sublist _ _)) ?_
      (List.mem_of_getLast? ends) top ?_
    · intro name taken
      exact (mem_foundNames name).mp (List.mem_of_mem_take taken)
    · intro name found
      exact rest name ((mem_foundNames name).mpr found)

end CoreTagSource

/-! ### The whole iteration -/

namespace ScanRun

open CoreTagSource

variable {hash : Bytes → UInt64} {s t : ScanRun hash} {id : SubscriberId} {pattern : Bytes}

/-- What a step can do. -/
inductive Moved (pattern : Bytes) (s : ScanRun hash) : ScanRun hash → Prop
  | changed (engine : TagEngine hash) : Moved pattern s { s with engine := engine }
  | requested (count : Option UInt64) (idle : s.call = none) (open_ : s.finished = false) :
      Moved pattern s { s with call := some ⟨count, 0, []⟩ }
  | read (call : ScanCall) (inside : s.call = some call) (more : call.shard < 16) :
      Moved pattern s { s with call := some { call with
        shard := call.shard + 1
        gathered := call.gathered ++
          TagEngine.shardTags (s.engine.shards ⟨call.shard, more⟩) } }
  | replied (call : ScanCall) (inside : s.call = some call) (all : 16 ≤ call.shard)
      (r : ScanResult)
      (result : r = scanGathered call.gathered s.cursor pattern (call.count.getD 0)) :
      Moved pattern s { s with
        cursor := r.nextCursor
        call := none
        returned := s.returned ++ r.names
        finished := decide (r.nextCursor = zero) }

/-- A pattern that is not valid gets an error, which ends the loop of the client. -/
theorem moved_of_receive {call : ScanCall} (inside : s.call = some call)
    (all : 16 ≤ call.shard) {d : Dispatcher}
    (h : s.receive (d.handle (gatheredSource hash) none ⟨id, true⟩ (s.engine, call.gathered)
      (scanCommand s.cursor pattern call.count)).reply = some t) : Moved pattern s t := by
  by_cases valid : TopicMatcher.isValidPattern pattern
  · rw [handle_scanCommand _ _ _ _ _ _ valid] at h
    simp only [receive, scanReply, Dispatcher.commandParts_bulk, Option.map_some,
      Option.some.injEq] at h
    subst h
    exact .replied call inside all _ rfl
  · rw [handle_scan, scan_invalid _ _ _ valid] at h
    simp [receive, scanReply, makeError] at h

theorem moved_of_step {a : ScanAction} (h : s.step id pattern a = some t) :
    Moved pattern s t := by
  cases a with
  | write tag =>
    obtain rfl := Option.some.inj h
    exact .changed _
  | remove name =>
    obtain rfl := Option.some.inj h
    exact .changed _
  | request count =>
    simp only [step] at h
    split at h
    · split_ifs at h with ended
      obtain rfl := Option.some.inj h
      exact .requested count ‹_› (Bool.eq_false_of_not_eq_true ended)
    · contradiction
  | readShard =>
    simp only [step] at h
    split at h
    · contradiction
    · rename_i call inside
      unfold readShard at h
      split_ifs at h with more
      obtain rfl := Option.some.inj h
      exact .read call inside more
  | reply d =>
    simp only [step] at h
    split at h
    · contradiction
    · rename_i call inside
      split_ifs at h with more
      exact moved_of_receive inside (Nat.le_of_not_lt more) h

/-- What the snapshot in progress holds: tags of the shards read so far, no name twice. -/
structure Gathered (hash : Bytes → UInt64) (call : ScanCall) : Prop where
  distinct : (call.gathered.map TagValue.name).Nodup
  shard : ∀ tag ∈ call.gathered, (shardFor hash tag.name).val < call.shard
  nonzero : ∀ tag ∈ call.gathered, tag.name ≠ zero

theorem gathered_empty (count : Option UInt64) : Gathered hash ⟨count, 0, []⟩ where
  distinct := List.nodup_nil
  shard _ listed := absurd listed List.not_mem_nil
  nonzero _ listed := absurd listed List.not_mem_nil

/-- The tags of a shard are stored, and under names of that shard. -/
theorem stored_of_shard (engine : TagEngine hash) (i : Fin 16) {tag : TagValue}
    (listed : tag ∈ TagEngine.shardTags (engine.shards i)) :
    engine.lookup tag.name = some tag ∧ shardFor hash tag.name = i := by
  obtain ⟨key, found⟩ := (TagEngine.mem_shardTags _ tag).mp listed
  obtain ⟨own, place⟩ := engine.placed i key tag found
  subst own place
  exact ⟨found, rfl⟩

theorem Gathered.read {call : ScanCall} (gathered : Gathered hash call) (engine : TagEngine hash)
    (free : engine.lookup zero = none) (more : call.shard < 16) :
    Gathered hash { call with
      shard := call.shard + 1
      gathered := call.gathered ++ TagEngine.shardTags (engine.shards ⟨call.shard, more⟩) } where
  distinct := by
    rw [List.map_append, List.nodup_append']
    refine ⟨gathered.distinct, engine.nodup_shard_names _, ?_⟩
    intro name old new
    obtain ⟨tag, listed, rfl⟩ := List.mem_map.mp old
    obtain ⟨tag', listed', same⟩ := List.mem_map.mp new
    have before := gathered.shard tag listed
    have now := (stored_of_shard engine _ listed').2
    rw [same] at now
    rw [now] at before
    exact absurd before (Nat.lt_irrefl _)
  shard tag listed := by
    rcases List.mem_append.mp listed with old | new
    · exact Nat.lt_succ_of_lt (gathered.shard tag old)
    · rw [(stored_of_shard engine _ new).2]
      exact Nat.lt_succ_self _
  nonzero tag listed := by
    rcases List.mem_append.mp listed with old | new
    · exact gathered.nonzero tag old
    · intro same
      have stored := (stored_of_shard engine _ new).1
      rw [same, free] at stored
      contradiction

/-- The names returned so far ascend up to the cursor. -/
structure Ascending (s : ScanRun hash) : Prop where
  sorted : s.returned.Pairwise (· < ·)
  below : s.finished = false → ∀ name ∈ s.returned, name ≤ s.start
  gathered : ∀ call, s.call = some call → Gathered hash call ∧ s.finished = false

theorem ascending_begin (engine : TagEngine hash) : Ascending (begin engine) where
  sorted := List.Pairwise.nil
  below _ _ listed := absurd listed List.not_mem_nil
  gathered _ inside := by contradiction

theorem Ascending.replied (ascending : s.Ascending) {call : ScanCall}
    (inside : s.call = some call) {r : ScanResult}
    (returns : Returns call.gathered s.cursor pattern r) :
    Ascending { s with
      cursor := r.nextCursor
      call := none
      returned := s.returned ++ r.names
      finished := decide (r.nextCursor = zero) } := by
  obtain ⟨gathered, running⟩ := ascending.gathered call inside
  have joined : ∀ names : List Bytes, names.Pairwise (· < ·) →
      (∀ name ∈ names, Found call.gathered s.cursor pattern name) →
      (s.returned ++ names).Pairwise (· < ·) := by
    intro names sorted found
    rw [List.pairwise_append]
    refine ⟨ascending.sorted, sorted, fun a old b new => ?_⟩
    have above : s.start < b := (found b new).2.1
    exact lt_of_le_of_lt (ascending.below running a old) above
  cases returns with
  | all names sorted found =>
    refine ⟨joined names sorted (fun name listed => (found name).mp listed), ?_, ?_⟩
    · intro running'
      simp at running'
    · intro call' inside'
      contradiction
  | more names last sorted found ends top rest =>
    have nonzero : last ≠ zero := by
      obtain ⟨listed, _⟩ := found last ends
      obtain ⟨tag, held, rfl⟩ := List.mem_map.mp listed
      exact gathered.nonzero tag held
    refine ⟨joined names sorted found, fun _ name listed => ?_, ?_⟩
    · simp only [start, nonzero, if_false]
      rcases List.mem_append.mp listed with old | new
      · have above : s.start < last := (found last ends).2.1
        exact (lt_of_le_of_lt (ascending.below running name old) above).le
      · exact top name new
    · intro call' inside'
      contradiction

theorem Ascending.moved (ascending : s.Ascending) (free : s.engine.lookup zero = none)
    (h : Moved pattern s t) : t.Ascending := by
  cases h with
  | changed engine => exact ⟨ascending.sorted, ascending.below, ascending.gathered⟩
  | requested count idle running =>
    refine ⟨ascending.sorted, ascending.below, fun call inside => ?_⟩
    obtain rfl := Option.some.inj inside
    exact ⟨gathered_empty count, running⟩
  | read call inside more =>
    obtain ⟨gathered, running⟩ := ascending.gathered call inside
    refine ⟨ascending.sorted, ascending.below, fun call' inside' => ?_⟩
    obtain rfl := Option.some.inj inside'
    exact ⟨gathered.read s.engine free more, running⟩
  | replied call inside all r result =>
    subst result
    exact ascending.replied inside
      (returns_scanGathered (ascending.gathered call inside).1.distinct)

/-- What the iteration has done about a name that matches the pattern: it is returned, or it is
above the cursor and in the snapshot in progress once its shard has been read. -/
structure Covered (s : ScanRun hash) (name : Bytes) : Prop where
  passed : name ∈ s.returned ∨ s.finished = false ∧ s.start < name
  seen : ∀ call, s.call = some call → (shardFor hash name).val < call.shard →
    name ∈ call.gathered.map TagValue.name

theorem covered_begin (engine : TagEngine hash) {name : Bytes} (nonempty : name ≠ []) :
    Covered (begin engine) name where
  passed := by
    refine .inr ⟨rfl, ?_⟩
    cases name with
    | nil => exact absurd rfl nonempty
    | cons b bs => exact List.nil_lt_cons b bs
  seen _ inside := by contradiction

theorem Covered.read {name : Bytes} (covered : s.Covered name) (stored : s.Stores name)
    {call : ScanCall} (inside : s.call = some call) (more : call.shard < 16) :
    Covered { s with call := some { call with
      shard := call.shard + 1
      gathered := call.gathered ++
        TagEngine.shardTags (s.engine.shards ⟨call.shard, more⟩) } } name := by
  refine ⟨covered.passed, fun call' inside' read => ?_⟩
  obtain rfl := Option.some.inj inside'
  rw [List.map_append, List.mem_append]
  rcases Nat.lt_succ_iff_lt_or_eq.mp read with before | now
  · exact .inl (covered.seen call inside before)
  · obtain ⟨tag, found⟩ := Option.isSome_iff_exists.mp stored
    have own : tag.name = name := TagEngine.name_of_lookup found
    have place : shardFor hash name = ⟨call.shard, more⟩ := Fin.ext now
    refine .inr (List.mem_map.mpr ⟨tag, ?_, own⟩)
    rw [TagEngine.mem_shardTags]
    refine ⟨name, ?_⟩
    rw [← place]
    exact found

theorem Covered.replied {name : Bytes} (covered : s.Covered name)
    (fits : TopicMatcher.matches pattern name) {call : ScanCall} (inside : s.call = some call)
    (all : 16 ≤ call.shard) {r : ScanResult} (nonzero : ∀ tag ∈ call.gathered, tag.name ≠ zero)
    (returns : Returns call.gathered s.cursor pattern r) :
    Covered { s with
      cursor := r.nextCursor
      call := none
      returned := s.returned ++ r.names
      finished := decide (r.nextCursor = zero) } name := by
  refine ⟨?_, fun call' inside' => by contradiction⟩
  have held : name ∈ call.gathered.map TagValue.name :=
    covered.seen call inside (Nat.lt_of_lt_of_le (shardFor hash name).isLt all)
  rcases covered.passed with old | ⟨_, above⟩
  · exact .inl (List.mem_append_left _ old)
  · have wanted : Found call.gathered s.cursor pattern name := ⟨held, above, fits⟩
    cases returns with
    | all names sorted found => exact .inl (List.mem_append_right _ ((found name).mpr wanted))
    | more names last sorted found ends top rest =>
      have last_nonzero : last ≠ zero := by
        obtain ⟨listed, _⟩ := found last ends
        obtain ⟨tag, stored, rfl⟩ := List.mem_map.mp listed
        exact nonzero tag stored
      rcases rest name wanted with now | later
      · exact .inl (List.mem_append_right _ now)
      · refine .inr ⟨by simpa using last_nonzero, ?_⟩
        simpa only [start, last_nonzero, if_false] using later

theorem Covered.moved {name : Bytes} (covered : s.Covered name) (ascending : s.Ascending)
    (stored : s.Stores name) (fits : TopicMatcher.matches pattern name)
    (h : Moved pattern s t) : t.Covered name := by
  cases h with
  | changed engine => exact ⟨covered.passed, covered.seen⟩
  | requested count idle running =>
    refine ⟨covered.passed, fun call inside read => ?_⟩
    obtain rfl := Option.some.inj inside
    exact absurd read (Nat.not_lt_zero _)
  | read call inside more => exact covered.read stored inside more
  | replied call inside all r result =>
    obtain ⟨gathered, _⟩ := ascending.gathered call inside
    subst result
    exact covered.replied fits inside all gathered.nonzero (returns_scanGathered gathered.distinct)

/-- An iteration while tags are written and removed at any moment, also between the shards of
one snapshot: the names it returns ascend strictly, and when it reports `"0"` it has returned
each matching name that was stored all the time. -/
theorem scan_concurrent (id : SubscriberId) (pattern : Bytes) (engine : TagEngine hash)
    (schedule : List ScanAction) (t : ScanRun hash)
    (run : (machine id pattern engine).run schedule = some t)
    (nameless : (machine id pattern engine).Steps (fun s _ => ¬s.Stores zero) (begin engine)
      schedule) :
    t.returned.Pairwise (· < ·) ∧
      (t.finished = true → ∀ name, TopicMatcher.matches pattern name →
        (machine id pattern engine).Steps (fun s _ => s.Stores name) (begin engine) schedule →
        t.returned.count name = 1) := by
  have free : ∀ s : ScanRun hash, ¬s.Stores zero → s.engine.lookup zero = none := by
    intro s absent
    simpa [Stores] using absent
  have ascending : t.Ascending := (machine id pattern engine).invariant_of_steps _ Ascending
    (fun s a u inv absent step => inv.moved (free s absent) (moved_of_step step)) (begin engine)
    schedule t (ascending_begin engine) nameless run
  refine ⟨ascending.sorted, fun finished name fits throughout => ?_⟩
  have nonempty : name ≠ [] := TopicMatcher.ne_nil_of_matches fits
  have both : t.Ascending ∧ t.Covered name := (machine id pattern engine).invariant_of_steps _
    (fun s => s.Ascending ∧ s.Covered name)
    (fun s a u inv ok step => ⟨inv.1.moved (free s ok.1) (moved_of_step step),
      inv.2.moved inv.1 ok.2 fits (moved_of_step step)⟩) (begin engine) schedule t
    ⟨ascending_begin engine, covered_begin engine nonempty⟩ (nameless.and throughout) run
  have distinct : t.returned.Nodup := ascending.sorted.imp ne_of_lt
  rcases both.2.passed with returned | ⟨running, _⟩
  · exact List.count_eq_one_of_mem distinct returned
  · rw [finished] at running
    contradiction

/-- An engine that holds the topics `"a/b"` and `"a/d"`. -/
def twoTopics : TagEngine (fun _ => 0) :=
  ((TagEngine.empty.writeImpl (.of (ascii "a/b") .null 0)).2.writeImpl
    (.of (ascii "a/d") .null 0)).2

/-- `"a/c"` is written while the first snapshot is taken, and `"a/b"` removed in the second. -/
def changingStore : List ScanAction :=
  [.request (some 1)] ++ List.replicate 8 .readShard ++ [.write (.of (ascii "a/c") .null 1)] ++
    List.replicate 8 .readShard ++ [.reply .empty, .request none] ++
    List.replicate 4 .readShard ++ [.remove (ascii "a/b")] ++ List.replicate 12 .readShard ++
    [.reply .empty]

theorem scan_concurrent_changingStore : ∃ t : ScanRun (fun _ => 0),
    (machine 1 (ascii "a/#") twoTopics).run changingStore = some t ∧ t.finished = true ∧
      t.returned.Pairwise (· < ·) ∧ t.returned.count (ascii "a/d") = 1 := by
  have ends : ((machine 1 (ascii "a/#") twoTopics).run changingStore).map ScanRun.finished =
      some true := by decide +kernel
  obtain ⟨t, run, finished⟩ := Option.map_eq_some_iff.mp ends
  have nameless : (machine 1 (ascii "a/#") twoTopics).Steps (fun s _ => ¬s.Stores zero)
      (begin twoTopics) changingStore := by decide +kernel
  have throughout : (machine 1 (ascii "a/#") twoTopics).Steps
      (fun s _ => s.Stores (ascii "a/d")) (begin twoTopics) changingStore := by decide +kernel
  obtain ⟨ascending, complete⟩ := scan_concurrent 1 (ascii "a/#") twoTopics changingStore t run
    nameless
  exact ⟨t, run, finished, ascending, complete finished (ascii "a/d") (by decide) throughout⟩

end ScanRun

end IndustrialRuntime.Irsp

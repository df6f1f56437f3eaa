import IndustrialRuntime.Codec.Canonical

namespace IndustrialRuntime.Irsp.Irsp1Codec

/-- The header of an array or a map, and the number of values that are to follow it. -/
inductive Opens : Bytes → Nat → Prop where
  | array {line : Bytes} {count : Int64} (clean : ¬crlf <:+: line)
    (number : parseInt line = some count) (sign : 0 ≤ count.toInt) :
    Opens (42 :: (line ++ crlf)) count.toInt.toNat
  | map {line : Bytes} {pairs : Int64} (clean : ¬crlf <:+: line)
    (number : parseInt line = some pairs) (sign : 0 ≤ pairs.toInt) :
    Opens (37 :: (line ++ crlf)) (2 * pairs.toInt.toNat)

/-- The spelling of a value, from its type byte to its last CRLF. -/
inductive Complete : Bytes → Prop where
  | simple {line : Bytes} (clean : ¬crlf <:+: line) : Complete (43 :: (line ++ crlf))
  | error {line : Bytes} (clean : ¬crlf <:+: line) : Complete (45 :: (line ++ crlf))
  | integer {line : Bytes} {value : Int64} (clean : ¬crlf <:+: line)
    (number : parseInt line = some value) : Complete (58 :: (line ++ crlf))
  | nullBulk {line : Bytes} {len : Int64} (clean : ¬crlf <:+: line)
    (number : parseInt line = some len) (sign : len.toInt < 0) :
    Complete (36 :: (line ++ crlf))
  | bulk {line data : Bytes} {len : Int64} (clean : ¬crlf <:+: line)
    (number : parseInt line = some len) (size : len.toInt = data.length) :
    Complete (36 :: (line ++ crlf) ++ data ++ crlf)
  | nullArray {line : Bytes} {count : Int64} (clean : ¬crlf <:+: line)
    (number : parseInt line = some count) (sign : count.toInt < 0) :
    Complete (42 :: (line ++ crlf))
  | nested {header : Bytes} {values : Nat} {inside : List Bytes} (opens : Opens header values)
    (all : inside.length = values) (complete : ∀ w ∈ inside, Complete w) :
    Complete (header ++ inside.flatten)

/-- The bytes after which the decoder goes on to read a value: headers, each with fewer
complete values than it announces. -/
inductive Expects : Bytes → Prop where
  | start : Expects []
  | inside {header deeper : Bytes} {values : Nat} {before : List Bytes}
    (opens : Opens header values) (some : before.length < values)
    (complete : ∀ w ∈ before, Complete w) (rest : Expects deeper) :
    Expects (header ++ before.flatten ++ deeper)

/-- What a text or a header needs of the heap, and how far behind its type byte. -/
inductive Needs : Bytes → Nat → Request → Prop where
  | simple {line : Bytes} (clean : ¬crlf <:+: line) :
    Needs (43 :: (line ++ crlf)) 1 (.text line.length)
  | code {line : Bytes} (clean : ¬crlf <:+: line) :
    Needs (45 :: (line ++ crlf)) 1 (.text (errorCode line).length)
  | message {line : Bytes} (clean : ¬crlf <:+: line) :
    Needs (45 :: (line ++ crlf)) (1 + (errorCode line).length + 1)
      (.text (errorMessage line).length)
  | bulk {line data : Bytes} {len : Int64} (clean : ¬crlf <:+: line)
    (number : parseInt line = some len) (size : len.toInt = data.length) :
    Needs (36 :: (line ++ crlf) ++ data ++ crlf) (1 + line.length + 2) (.text data.length)
  | array {line : Bytes} {count : Int64} (clean : ¬crlf <:+: line)
    (number : parseInt line = some count) (sign : 0 ≤ count.toInt) :
    Needs (42 :: (line ++ crlf)) 0 (.items count.toInt.toNat)
  | map {line : Bytes} {pairs : Int64} (clean : ¬crlf <:+: line)
    (number : parseInt line = some pairs) (sign : 0 ≤ pairs.toInt) :
    Needs (37 :: (line ++ crlf)) 0 (.entries pairs.toInt.toNat)

/-- Where a value is expected the buffer holds something that needs memory. -/
def Requests (b : Bytes) (place : Nat) (r : Request) : Prop :=
  ∃ before part rest offset, Expects before ∧ Needs part offset r ∧ b = before ++ part ++ rest ∧
    place = before.length + offset

/-- The heap refuses something that the buffer needs. -/
def Starves (mem : Heap) (b : Bytes) : Prop :=
  ∃ place r, Requests b place r ∧ mem.Refuses place r

variable {mem : Heap} {b : Bytes} {parse : Nat → Except Raised ParseState}

/-! ### The line at a position -/

theorem crlfOffset_split {l : Bytes} {k : Nat} (h : crlfOffset l = some k) :
    l = l.take k ++ crlf ++ l.drop (k + 2) := by
  obtain ⟨line, rest, rfl, -, rfl⟩ := crlfOffset_eq_some_iff.mp h
  have length : line.length + 2 = (line ++ crlf).length := by
    rw [List.length_append]
    rfl
  rw [length, List.drop_left, List.append_assoc, List.take_left, ← List.append_assoc]

/-- A type byte with a CRLF behind it is a line. -/
theorem lineAt_of_findCrlf {pos lineEnd : Nat} {type : UInt8} (at_type : b[pos]? = some type)
    (found : findCrlf b (pos + 1) = some lineEnd)
    (clean : crlfOffset (substr b (pos + 1) (lineEnd - (pos + 1))) = none) :
    LineAt b pos type (substr b (pos + 1) (lineEnd - (pos + 1))) (b.drop (lineEnd + 2)) where
  bytes := by
    obtain ⟨inside, rfl⟩ := List.getElem?_eq_some_iff.mp at_type
    obtain ⟨k, offset, rfl⟩ := Option.map_eq_some_iff.mp found
    have split := crlfOffset_split offset
    rw [List.drop_drop] at split
    rw [List.drop_eq_getElem_cons inside, Nat.add_sub_cancel_left, substr, Nat.add_assoc]
    exact congrArg _ split
  clean := clean

theorem LineAt.of_header {pos : Nat} {type : UInt8} {line rest : Bytes} (clean : ¬crlf <:+: line)
    (h : b.drop pos = type :: (line ++ crlf) ++ rest) : LineAt b pos type line rest :=
  ⟨h, (crlfOffset_eq_none_iff line).mpr clean⟩

/-- A parse stops at once, or at a line. -/
theorem parseBody_cases (mem : Heap) (b : Bytes) (parse : Nat → Except Raised ParseState)
    (pos : Nat) :
    parseBody mem b parse pos = .ok ⟨.incomplete, .null, pos⟩ ∨
      ∃ type line rest, LineAt b pos type line rest := by
  cases at_type : b[pos]? with
  | none =>
    left
    simp only [parseBody, at_type]
  | some type =>
    cases found : findCrlf b (pos + 1) with
    | none =>
      left
      simp only [parseBody, at_type, found]
    | some lineEnd =>
      right
      have clean := (crlfOffset_eq_none_iff _).mpr (clean_line found)
      exact ⟨type, _, _, lineAt_of_findCrlf at_type found clean⟩

/-! ### What a parse has read -/

/-- From `cur` to `stop` the buffer holds these values. -/
structure Walk (b : Bytes) (cur : Nat) (ws : List Bytes) (stop : Nat) :
    Prop where
  complete : ∀ w ∈ ws, Complete w
  bytes : b.drop cur = ws.flatten ++ b.drop stop
  stop_eq : stop = cur + ws.flatten.length

theorem Walk.nil (b : Bytes) (cur : Nat) : Walk b cur [] cur :=
  ⟨by simp, rfl, rfl⟩

theorem Walk.append {cur mid stop : Nat} {ws ws' : List Bytes} (first : Walk b cur ws mid)
    (second : Walk b mid ws' stop) : Walk b cur (ws ++ ws') stop where
  complete := by
    intro w held
    obtain before | after := List.mem_append.mp held
    · exact first.complete w before
    · exact second.complete w after
  bytes := by
    rw [first.bytes, second.bytes, List.flatten_append, List.append_assoc]
  stop_eq := by
    have first_length := first.stop_eq
    have second_length := second.stop_eq
    rw [List.flatten_append, List.length_append]
    omega

/-- What `parse` reads is one complete value. -/
def Consumes (b : Bytes) (parse : Nat → Except Raised ParseState) : Prop :=
  ∀ cur st, parse cur = .ok st → st.status = .ok → ∃ w, Walk b cur [w] st.pos

theorem parseItems_walk (consumes : Consumes b parse) {pos count cur : Nat}
    {items : List IrspValue} {st : ParseState}
    (h : parseItems parse pos count items cur = .ok st) (ok : st.status = .ok) :
    ∃ ws, ws.length = count ∧ Walk b cur ws st.pos := by
  induction count generalizing items cur with
  | zero =>
    obtain rfl := Except.ok.inj h
    exact ⟨[], rfl, Walk.nil b cur⟩
  | succ count ih =>
    obtain ⟨el, read, good, rest⟩ := parseItems_succ h ok
    obtain ⟨w, here⟩ := consumes cur el read good
    obtain ⟨ws, length, later⟩ := ih rest
    exact ⟨w :: ws, by rw [List.length_cons, length], here.append later⟩

/-- An exception leaves the loop from a value that follows complete ones. -/
theorem parseItems_stops (consumes : Consumes b parse) {pos count cur : Nat}
    {items : List IrspValue} {e : Raised}
    (h : parseItems parse pos count items cur = .error e) :
    ∃ ws stop, ws.length < count ∧ Walk b cur ws stop ∧ parse stop = .error e := by
  induction count generalizing items cur with
  | zero => cases h
  | succ count ih =>
    obtain raised | ⟨el, read, good, rest⟩ := parseItems_succ_error h
    · exact ⟨[], cur, by simp, Walk.nil b cur, raised⟩
    · obtain ⟨w, here⟩ := consumes cur el read good
      obtain ⟨ws, stop, length, later, raised⟩ := ih rest
      refine ⟨w :: ws, stop, ?_, here.append later, raised⟩
      rw [List.length_cons]
      omega

theorem parseEntries_walk (consumes : Consumes b parse) {pos pairs cur : Nat}
    {entries : List (IrspValue × IrspValue)} {st : ParseState}
    (h : parseEntries parse pos pairs entries cur = .ok st) (ok : st.status = .ok) :
    ∃ ws, ws.length = 2 * pairs ∧ Walk b cur ws st.pos := by
  induction pairs generalizing entries cur with
  | zero =>
    obtain rfl := Except.ok.inj h
    exact ⟨[], rfl, Walk.nil b cur⟩
  | succ pairs ih =>
    obtain ⟨key, val, read_key, good_key, read_val, good_val, rest⟩ := parseEntries_succ h ok
    obtain ⟨w, at_key⟩ := consumes cur key read_key good_key
    obtain ⟨w', at_val⟩ := consumes key.pos val read_val good_val
    obtain ⟨ws, length, later⟩ := ih rest
    refine ⟨w :: w' :: ws, ?_, at_key.append (at_val.append later)⟩
    rw [List.length_cons, List.length_cons, length]
    omega

theorem parseEntries_stops (consumes : Consumes b parse) {pos pairs cur : Nat}
    {entries : List (IrspValue × IrspValue)} {e : Raised}
    (h : parseEntries parse pos pairs entries cur = .error e) :
    ∃ ws stop, ws.length < 2 * pairs ∧ Walk b cur ws stop ∧ parse stop = .error e := by
  induction pairs generalizing entries cur with
  | zero => cases h
  | succ pairs ih =>
    obtain raised | ⟨key, read_key, good_key, later⟩ := parseEntries_succ_error h
    · refine ⟨[], cur, ?_, Walk.nil b cur, raised⟩
      rw [List.length_nil]
      omega
    · obtain ⟨w, at_key⟩ := consumes cur key read_key good_key
      obtain raised | ⟨val, read_val, good_val, rest⟩ := later
      · refine ⟨[w], key.pos, ?_, at_key, raised⟩
        rw [List.length_singleton]
        omega
      · obtain ⟨w', at_val⟩ := consumes key.pos val read_val good_val
        obtain ⟨ws, stop, length, later, raised⟩ := ih rest
        refine ⟨w :: w' :: ws, stop, ?_, at_key.append (at_val.append later), raised⟩
        rw [List.length_cons, List.length_cons]
        omega

namespace LineAt

variable {pos : Nat} {type : UInt8} {line rest : Bytes}

theorem clean_bytes (h : LineAt b pos type line rest) : ¬crlf <:+: line :=
  (crlfOffset_eq_none_iff line).mp h.clean

theorem header_bytes (h : LineAt b pos type line rest) :
    b.drop pos = type :: (line ++ crlf) ++ b.drop (pos + 1 + line.length + 2) := by
  rw [h.drop_rest, h.bytes, List.cons_append]

theorem header_length (pos : Nat) (type : UInt8) (line : Bytes) :
    pos + 1 + line.length + 2 = pos + (type :: (line ++ crlf)).length := by
  simp only [List.length_cons, List.length_append, crlf, List.length_nil]
  omega

/-- A line that is a value by itself. -/
theorem walk (h : LineAt b pos type line rest) (complete : Complete (type :: (line ++ crlf))) :
    Walk b pos [type :: (line ++ crlf)] (pos + 1 + line.length + 2) where
  complete := by simpa using complete
  bytes := by
    rw [List.flatten_singleton]
    exact h.header_bytes
  stop_eq := by
    rw [List.flatten_singleton]
    exact header_length pos type line

/-- A header with all its values. -/
theorem walk_nested (h : LineAt b pos type line rest) {values stop : Nat}
    {ws : List Bytes} (opens : Opens (type :: (line ++ crlf)) values) (all : ws.length = values)
    (inside : Walk b (pos + 1 + line.length + 2) ws stop) :
    Walk b pos [type :: (line ++ crlf) ++ ws.flatten] stop where
  complete := by
    intro w held
    rw [List.mem_singleton.mp held]
    exact .nested opens all inside.complete
  bytes := by
    rw [List.flatten_singleton, List.append_assoc, ← inside.bytes]
    exact h.header_bytes
  stop_eq := by
    have first := header_length pos type line
    have later := inside.stop_eq
    rw [List.flatten_singleton, List.length_append]
    omega

end LineAt

theorem getElem?_split {i : Nat} (cr : b[i]? = some 13) (lf : b[i + 1]? = some 10) :
    b.drop i = crlf ++ b.drop (i + 2) := by
  obtain ⟨here, cr⟩ := List.getElem?_eq_some_iff.mp cr
  obtain ⟨next, lf⟩ := List.getElem?_eq_some_iff.mp lf
  rw [List.drop_eq_getElem_cons here, List.drop_eq_getElem_cons next, cr, lf]
  rfl

/-- The data of a bulk and its CRLF behind the length line. -/
theorem LineAt.bulk_split {pos : Nat} {line rest : Bytes} {len : Int64}
    (at_line : LineAt b pos 36 line rest) (sign : 0 ≤ len.toInt)
    (within : pos + 1 + line.length + 2 + len.toInt.toNat + 2 ≤ b.length)
    (cr : b[pos + 1 + line.length + 2 + len.toInt.toNat]? = some 13)
    (lf : b[pos + 1 + line.length + 2 + len.toInt.toNat + 1]? = some 10) :
    ∃ data : Bytes, len.toInt = data.length ∧
      b.drop pos = 36 :: (line ++ crlf) ++ data ++ crlf ++
        b.drop (pos + 1 + line.length + 2 + len.toInt.toNat + 2) := by
  let after := pos + 1 + line.length + 2
  let data := substr b after len.toInt.toNat
  have length : data.length = len.toInt.toNat := by
    simp only [data, substr, List.length_take, List.length_drop]
    omega
  have size : len.toInt = data.length := by
    omega
  have tail : b.drop after = data ++ (crlf ++ b.drop (after + len.toInt.toNat + 2)) := by
    have cut := List.take_append_drop len.toInt.toNat (b.drop after)
    rw [List.drop_drop] at cut
    rw [← getElem?_split cr lf]
    exact cut.symm
  refine ⟨data, size, ?_⟩
  rw [List.append_assoc, List.append_assoc, ← tail]
  exact at_line.header_bytes

theorem LineAt.walk_bulk {pos : Nat} {line rest : Bytes} {len : Int64}
    (at_line : LineAt b pos 36 line rest) (number : parseInt line = some len)
    (sign : 0 ≤ len.toInt) (within : pos + 1 + line.length + 2 + len.toInt.toNat + 2 ≤ b.length)
    (cr : b[pos + 1 + line.length + 2 + len.toInt.toNat]? = some 13)
    (lf : b[pos + 1 + line.length + 2 + len.toInt.toNat + 1]? = some 10) :
    ∃ w, Walk b pos [w] (pos + 1 + line.length + 2 + len.toInt.toNat + 2) := by
  obtain ⟨data, size, whole⟩ := at_line.bulk_split sign within cr lf
  refine ⟨36 :: (line ++ crlf) ++ data ++ crlf, ?_, ?_, ?_⟩
  · intro w held
    rw [List.mem_singleton.mp held]
    exact .bulk at_line.clean_bytes number size
  · rw [List.flatten_singleton]
    exact whole
  · have first := LineAt.header_length pos 36 line
    have two : crlf.length = 2 := rfl
    rw [List.flatten_singleton, List.length_append, List.length_append]
    omega

/-- A line that is parsed is a complete value, with what belongs to it. -/
theorem LineRead.walk (consumes : Consumes b parse) {type : UInt8} {line rest : Bytes}
    {pos : Nat} {st : ParseState} (at_line : LineAt b pos type line rest)
    (read : LineRead b parse line pos (pos + 1 + line.length + 2) type st) :
    ∃ w, Walk b pos [w] st.pos := by
  have clean := at_line.clean_bytes
  cases read with
  | simple => exact ⟨_, at_line.walk (.simple clean)⟩
  | error => exact ⟨_, at_line.walk (.error clean)⟩
  | integer number => exact ⟨_, at_line.walk (.integer clean number)⟩
  | nullBulk number negative => exact ⟨_, at_line.walk (.nullBulk clean number negative)⟩
  | bulk number sign within cr lf => exact at_line.walk_bulk number sign within cr lf
  | nullArray number negative => exact ⟨_, at_line.walk (.nullArray clean number negative)⟩
  | array number sign loop ok =>
    obtain ⟨ws, all, inside⟩ := parseItems_walk consumes loop ok
    exact ⟨_, at_line.walk_nested (.array clean number sign) all inside⟩
  | map number sign loop ok =>
    obtain ⟨ws, all, inside⟩ := parseEntries_walk consumes loop ok
    exact ⟨_, at_line.walk_nested (.map clean number sign) all inside⟩

theorem parseValue_consumes (depth : Nat) : Consumes b (parseValue mem b depth) := by
  induction depth with
  | zero =>
    intro cur st h
    cases h
  | succ depth ih =>
    intro cur st h ok
    rw [parseValue] at h
    obtain stops | ⟨type, line, rest, at_line⟩ := parseBody_cases mem b (parseValue mem b depth) cur
    · rw [stops] at h
      obtain rfl := Except.ok.inj h
      cases ok
    · rw [at_line.parseBody_eq] at h
      exact (parseLine_ok h ok).walk ih at_line

/-! ### What makes a parse raise -/

theorem requests_here {part rest : Bytes} {offset : Nat} {r : Request}
    (needs : Needs part offset r) :
    Requests (part ++ rest) offset r :=
  ⟨[], part, rest, offset, .start, needs, rfl, (Nat.zero_add offset).symm⟩

theorem Requests.inside {header tail : Bytes} {values place : Nat} {ws : List Bytes} {r : Request}
    (deeper : Requests tail place r) (opens : Opens header values) (some : ws.length < values)
    (complete : ∀ w ∈ ws, Complete w) :
    Requests (header ++ (ws.flatten ++ tail)) (header.length + ws.flatten.length + place) r := by
  obtain ⟨before, part, rest, offset, expects, needs, rfl, rfl⟩ := deeper
  refine ⟨header ++ ws.flatten ++ before, part, rest, offset, .inside opens some complete expects,
    needs, ?_, ?_⟩
  · simp only [List.append_assoc]
  · simp only [List.length_append, Nat.add_assoc]

/-- What a line asks for is asked where it stands. -/
theorem LineAsks.requests {type : UInt8} {line rest : Bytes} {pos place : Nat} {r : Request}
    (at_line : LineAt b pos type line rest)
    (asks : LineAsks b line pos (pos + 1 + line.length + 2) type place r) :
    ∃ offset, place = pos + offset ∧ Requests (b.drop pos) offset r := by
  have clean := at_line.clean_bytes
  have bytes := at_line.header_bytes
  cases asks with
  | simple =>
    rw [bytes]
    exact ⟨_, rfl, requests_here (.simple clean)⟩
  | code =>
    rw [bytes]
    exact ⟨_, rfl, requests_here (.code clean)⟩
  | message =>
    rw [bytes]
    exact ⟨_, by omega, requests_here (.message clean)⟩
  | bulk number sign within cr lf =>
    obtain ⟨data, size, whole⟩ := at_line.bulk_split sign within cr lf
    have length : data.length = _ := (Int.toNat_natCast data.length).symm.trans
      (congrArg Int.toNat size.symm)
    rw [whole, ← length]
    exact ⟨_, by omega, requests_here (.bulk clean number size)⟩
  | array number sign =>
    rw [bytes]
    exact ⟨_, rfl, requests_here (.array clean number sign)⟩
  | map number sign =>
    rw [bytes]
    exact ⟨_, rfl, requests_here (.map clean number sign)⟩

/-- The parse from `pos` on meets a request that is refused. -/
def StarvesAt (mem : Heap) (b : Bytes) (pos : Nat) : Prop :=
  ∃ offset r, Requests (b.drop pos) offset r ∧ mem.Refuses (pos + offset) r

/-- An exception leaves a line from a request of its own or from a value inside. -/
theorem LineRaise.starvesAt (consumes : Consumes b parse)
    (starves : ∀ cur e, parse cur = .error e → e ≠ .depth → StarvesAt mem b cur) {type : UInt8}
    {line rest : Bytes} {pos : Nat} {e : Raised} (at_line : LineAt b pos type line rest)
    (raise : LineRaise mem b parse line pos (pos + 1 + line.length + 2) type e)
    (known : e ≠ .depth) : StarvesAt mem b pos := by
  have clean := at_line.clean_bytes
  have nested {values stop : Nat} {ws : List Bytes} (opens : Opens (type :: (line ++ crlf)) values)
      (some : ws.length < values) (walk : Walk b (pos + 1 + line.length + 2) ws stop)
      (raised : parse stop = .error e) : StarvesAt mem b pos := by
    obtain ⟨offset, r, deeper, refuses⟩ := starves stop e raised known
    have later := walk.stop_eq
    have first := LineAt.header_length pos type line
    refine ⟨(type :: (line ++ crlf)).length + ws.flatten.length + offset, r, ?_, ?_⟩
    · rw [at_line.header_bytes, walk.bytes]
      exact deeper.inside opens some walk.complete
    · rw [← Nat.add_assoc, ← Nat.add_assoc, ← first, ← later]
      exact refuses
  cases raise with
  | refused asks refuses =>
    obtain ⟨offset, rfl, requests⟩ := asks.requests at_line
    exact ⟨offset, _, requests, refuses⟩
  | array number sign loop =>
    obtain ⟨ws, stop, some, walk, raised⟩ := parseItems_stops consumes loop
    exact nested (.array clean number sign) some walk raised
  | map number sign loop =>
    obtain ⟨ws, stop, some, walk, raised⟩ := parseEntries_stops consumes loop
    exact nested (.map clean number sign) some walk raised

theorem parseValue_starvesAt (depth pos : Nat) (e : Raised)
    (h : parseValue mem b depth pos = .error e) (known : e ≠ .depth) : StarvesAt mem b pos := by
  induction depth generalizing pos e with
  | zero =>
    obtain rfl := Except.error.inj h
    exact absurd rfl known
  | succ depth ih =>
    rw [parseValue] at h
    obtain stops | ⟨type, line, rest, at_line⟩ := parseBody_cases mem b (parseValue mem b depth) pos
    · rw [stops] at h
      cases h
    · rw [at_line.parseBody_eq] at h
      exact (parseLine_error h).starvesAt (parseValue_consumes depth) ih at_line known

/-! ### A complete value is read -/

/-- `parse` reads `w` wherever it stands in the buffer, beyond `pos`, or raises. -/
def ReadsBytes (b : Bytes) (parse : Nat → Except Raised ParseState) (pos : Nat) (w : Bytes) :
    Prop :=
  ∀ cur s, pos < cur → b.drop cur = w ++ s →
    (∃ e, parse cur = .error e) ∨ ∃ v, parse cur = .ok ⟨.ok, v, cur + w.length⟩

theorem drop_past {cur : Nat} {w s : Bytes} (h : b.drop cur = w ++ s) :
    b.drop (cur + w.length) = s := by
  rw [← List.drop_drop, h, List.drop_left]

theorem parseItems_error_here {pos cur : Nat} {e : Raised} (raised : parse cur = .error e)
    (count : Nat) (items : List IrspValue) :
    parseItems parse pos (count + 1) items cur = .error e := by
  rw [parseItems, raised]

theorem parseEntries_error_here {pos cur : Nat} {e : Raised} (raised : parse cur = .error e)
    (pairs : Nat) (entries : List (IrspValue × IrspValue)) :
    parseEntries parse pos (pairs + 1) entries cur = .error e := by
  rw [parseEntries, raised]

theorem parseEntries_error_val {pos cur : Nat} {key : ParseState} {e : Raised}
    (read : parse cur = .ok key) (good : key.status = .ok) (raised : parse key.pos = .error e)
    (pairs : Nat) (entries : List (IrspValue × IrspValue)) :
    parseEntries parse pos (pairs + 1) entries cur = .error e := by
  rw [parseEntries, read]
  simp only [good, ne_eq, not_true_eq_false, if_false, raised]

/-- The loop over elements goes on behind values that are read. -/
theorem parseItems_skip {pos : Nat} (ws : List Bytes) (reads : ∀ w ∈ ws, ReadsBytes b parse pos w)
    (more : Nat) (done : List IrspValue) (cur : Nat) (s : Bytes) (above : pos < cur)
    (h : b.drop cur = ws.flatten ++ s) :
    (∃ e, parseItems parse pos (ws.length + more) done cur = .error e) ∨
      ∃ items, parseItems parse pos (ws.length + more) done cur =
        parseItems parse pos more items (cur + ws.flatten.length) := by
  induction ws generalizing done cur with
  | nil =>
    rw [List.length_nil, Nat.zero_add]
    exact .inr ⟨done, rfl⟩
  | cons w ws ih =>
    rw [List.flatten_cons, List.append_assoc] at h
    rw [List.length_cons, Nat.add_right_comm]
    obtain ⟨e, raised⟩ | ⟨v, read⟩ := reads w List.mem_cons_self cur _ above h
    · exact .inl ⟨e, parseItems_error_here raised _ done⟩
    · have later : ∀ w' ∈ ws, ReadsBytes b parse pos w' :=
        fun w' held => reads w' (List.mem_cons_of_mem w held)
      rw [parseItems_of_read read rfl, List.flatten_cons, List.length_append, ← Nat.add_assoc]
      exact ih later (done ++ [v]) (cur + w.length) (by omega) (drop_past h)

/-- The loop over pairs goes on behind an even number of values. -/
theorem parseEntries_skip {pos : Nat} (ws : List Bytes)
    (reads : ∀ w ∈ ws, ReadsBytes b parse pos w) (pairs : Nat) (even : ws.length = 2 * pairs)
    (more : Nat) (done : List (IrspValue × IrspValue)) (cur : Nat) (s : Bytes) (above : pos < cur)
    (h : b.drop cur = ws.flatten ++ s) :
    (∃ e, parseEntries parse pos (pairs + more) done cur = .error e) ∨
      ∃ entries, parseEntries parse pos (pairs + more) done cur =
        parseEntries parse pos more entries (cur + ws.flatten.length) := by
  induction pairs generalizing ws done cur with
  | zero =>
    obtain rfl := List.eq_nil_of_length_eq_zero even
    rw [Nat.zero_add]
    exact .inr ⟨done, rfl⟩
  | succ pairs ih =>
    match ws, even with
    | key :: val :: ws, even =>
      rw [List.flatten_cons, List.flatten_cons, List.append_assoc, List.append_assoc] at h
      rw [Nat.add_right_comm]
      obtain ⟨e, raised⟩ | ⟨k, read_key⟩ := reads key (by simp) cur _ above h
      · exact .inl ⟨e, parseEntries_error_here raised _ done⟩
      obtain ⟨e, raised⟩ | ⟨v, read_val⟩ :=
        reads val (by simp) (cur + key.length) _ (by omega) (drop_past h)
      · exact .inl ⟨e, parseEntries_error_val read_key rfl raised _ done⟩
      have later : ∀ w' ∈ ws, ReadsBytes b parse pos w' :=
        fun w' held => reads w' (by simp [held])
      have half : ws.length = 2 * pairs := by
        rw [List.length_cons, List.length_cons] at even
        omega
      rw [parseEntries_of_read read_key rfl read_val rfl, List.flatten_cons, List.flatten_cons,
        List.length_append, List.length_append, ← Nat.add_assoc, ← Nat.add_assoc]
      exact ih ws later half (done ++ [(k, v)]) (cur + key.length + val.length) (by omega)
        (drop_past (drop_past h))
    | [_], even =>
      rw [List.length_singleton] at even
      omega
    | [], even =>
      rw [List.length_nil] at even
      omega

/-- An exception where a value is expected leaves the loop over elements. -/
theorem parseItems_raises {pos count : Nat} {ws : List Bytes}
    (reads : ∀ w ∈ ws, ReadsBytes b parse pos w) (some : ws.length < count)
    (done : List IrspValue) {cur : Nat} {s : Bytes} {e : Raised} (above : pos < cur)
    (h : b.drop cur = ws.flatten ++ s) (raised : parse (cur + ws.flatten.length) = .error e) :
    ∃ e, parseItems parse pos count done cur = .error e := by
  obtain ⟨more, rfl⟩ : ∃ more, count = ws.length + (more + 1) := ⟨count - ws.length - 1, by omega⟩
  obtain earlier | ⟨items, rest⟩ := parseItems_skip ws reads (more + 1) done cur s above h
  · exact earlier
  · exact ⟨e, rest.trans (parseItems_error_here raised more items)⟩

/-- An exception where a key or its value is expected leaves the loop over pairs. -/
theorem parseEntries_raises {pos pairs : Nat} {ws : List Bytes}
    (reads : ∀ w ∈ ws, ReadsBytes b parse pos w) (some : ws.length < 2 * pairs)
    (done : List (IrspValue × IrspValue)) {cur : Nat} {s : Bytes} {e : Raised} (above : pos < cur)
    (h : b.drop cur = ws.flatten ++ s) (raised : parse (cur + ws.flatten.length) = .error e) :
    ∃ e, parseEntries parse pos pairs done cur = .error e := by
  obtain ⟨half, even | odd⟩ := Nat.even_or_odd' ws.length
  · obtain ⟨more, rfl⟩ : ∃ more, pairs = half + (more + 1) := ⟨pairs - half - 1, by omega⟩
    obtain earlier | ⟨entries, rest⟩ :=
      parseEntries_skip ws reads half even (more + 1) done cur s above h
    · exact earlier
    · exact ⟨e, rest.trans (parseEntries_error_here raised more entries)⟩
  · obtain ⟨front, key, rfl⟩ : ∃ front key, ws = front ++ [key] := by
      rcases List.eq_nil_or_concat ws with rfl | ⟨front, key, rfl⟩
      · simp at odd
      · exact ⟨front, key, List.concat_eq_append⟩
    have length : front.length = 2 * half := by
      rw [List.length_append, List.length_singleton] at odd
      omega
    obtain ⟨more, rfl⟩ : ∃ more, pairs = half + (more + 1) := by
      rw [List.length_append, List.length_singleton] at some
      exact ⟨pairs - half - 1, by omega⟩
    have before : ∀ w ∈ front, ReadsBytes b parse pos w :=
      fun w held => reads w (List.mem_append_left _ held)
    rw [List.flatten_append, List.flatten_singleton] at h raised
    rw [List.append_assoc] at h
    obtain earlier | ⟨entries, rest⟩ :=
      parseEntries_skip front before half length (more + 1) done cur (key ++ s) above h
    · exact earlier
    rw [rest]
    obtain ⟨e, at_key⟩ | ⟨k, read_key⟩ :=
      reads key (by simp) (cur + front.flatten.length) s (by omega) (drop_past h)
    · exact ⟨e, parseEntries_error_here at_key more entries⟩
    · rw [List.length_append, ← Nat.add_assoc] at raised
      exact ⟨e, parseEntries_error_val read_key rfl raised more entries⟩

theorem Complete.ne_nil {w : Bytes} (complete : Complete w) : w ≠ [] := by
  cases complete with
  | nested opens => cases opens <;> simp
  | _ => simp

/-- A line that can be parsed is parsed, or its request is refused. -/
theorem LineRead.raises_or {type : UInt8} {line : Bytes} {pos afterLine : Nat} {st : ParseState}
    (read : LineRead b parse line pos afterLine type st) :
    (∃ e, parseLine mem b parse type line pos afterLine = .error e) ∨
      parseLine mem b parse type line pos afterLine = .ok st := by
  by_cases granted : ∀ place r, LineAsks b line pos afterLine type place r → ¬mem.Refuses place r
  · exact .inr (read.parseLine_eq granted)
  · simp only [not_forall, not_not] at granted
    obtain ⟨place, r, asks, refuses⟩ := granted
    exact .inl (asks.raises refuses)

/-- A line that is a value by itself is read where it stands. -/
theorem LineAt.reads {pos : Nat} {type : UInt8} {line rest w : Bytes}
    (at_line : LineAt b pos type line rest) {depth : Nat} (enough : b.length + 1 ≤ depth + pos)
    (v : IrspValue)
    (read : ∀ parse, LineRead b parse line pos (pos + 1 + line.length + 2) type
      ⟨.ok, v, pos + w.length⟩) :
    (∃ e, parseValue mem b depth pos = .error e) ∨
      ∃ v, parseValue mem b depth pos = .ok ⟨.ok, v, pos + w.length⟩ := by
  obtain ⟨d, rfl, parsed⟩ := at_line.parseValue_eq mem enough
  rw [parsed]
  exact (read (parseValue mem b d)).raises_or.imp_right fun same => ⟨v, same⟩

/-- A complete value is read wherever it stands, unless a request is refused. -/
theorem parseValue_complete {w : Bytes} (complete : Complete w) {pos depth : Nat} {s : Bytes}
    (h : b.drop pos = w ++ s) (enough : b.length + 1 ≤ depth + pos) :
    (∃ e, parseValue mem b depth pos = .error e) ∨
      ∃ v, parseValue mem b depth pos = .ok ⟨.ok, v, pos + w.length⟩ := by
  induction complete generalizing pos depth s with
  | @simple line clean =>
    refine (LineAt.of_header clean h).reads enough (.simple line) fun parse => ?_
    rw [← LineAt.header_length]
    exact .simple
  | @error line clean =>
    refine (LineAt.of_header clean h).reads enough (.error (errorCode line) (errorMessage line))
      fun parse => ?_
    rw [← LineAt.header_length]
    exact .error
  | @integer line value clean number =>
    refine (LineAt.of_header clean h).reads enough (.integer value) fun parse => ?_
    rw [← LineAt.header_length]
    exact .integer number
  | nullBulk clean number sign =>
    refine (LineAt.of_header clean h).reads enough .null fun parse => ?_
    rw [← LineAt.header_length]
    exact .nullBulk number sign
  | @bulk line data len clean number size =>
    rw [List.append_assoc, List.append_assoc] at h
    have at_line := LineAt.of_header clean h
    have first := LineAt.header_length pos 36 line
    have two : crlf.length = 2 := rfl
    refine at_line.reads enough (.bulk data) fun parse => ?_
    rw [List.length_append, List.length_append, two, ← Nat.add_assoc, ← Nat.add_assoc, ← first]
    exact .bulk_data pos number size (by rw [at_line.drop_rest, List.append_assoc])
  | nullArray clean number sign =>
    refine (LineAt.of_header clean h).reads enough .null fun parse => ?_
    rw [← LineAt.header_length]
    exact .nullArray number sign
  | @nested header values ws opens all complete ih =>
    rw [List.append_assoc] at h
    have reads (d : Nat) (depth_eq : depth = d + 1) :
        ∀ w ∈ ws, ReadsBytes b (parseValue mem b d) pos w := by
      intro w held cur s' above here
      exact ih w held here (by omega)
    cases opens with
    | @array line count clean number sign =>
      have at_line := LineAt.of_header clean h
      have length := at_line.length_eq
      obtain ⟨d, rfl, parsed⟩ := at_line.parseValue_eq mem enough
      rw [parsed]
      by_cases refuses : mem.Refuses pos (.items count.toInt.toNat)
      · exact .inl (LineAsks.raises (.array number sign) refuses)
      rw [parseLine_array number sign _ refuses, ← all, ← Nat.add_zero ws.length,
        List.length_append, ← Nat.add_assoc, ← LineAt.header_length]
      obtain raised | ⟨items, done⟩ := parseItems_skip ws (reads d rfl) 0 []
        (pos + 1 + line.length + 2) s (by omega) at_line.drop_rest
      · exact .inl raised
      · exact .inr ⟨.array items, done⟩
    | @map line pairs clean number sign =>
      have at_line := LineAt.of_header clean h
      have length := at_line.length_eq
      obtain ⟨d, rfl, parsed⟩ := at_line.parseValue_eq mem enough
      rw [parsed]
      by_cases refuses : mem.Refuses pos (.entries pairs.toInt.toNat)
      · exact .inl (LineAsks.raises (.map number sign) refuses)
      rw [parseLine_map number sign _ refuses, List.length_append, ← Nat.add_assoc,
        ← LineAt.header_length]
      obtain raised | ⟨entries, done⟩ := parseEntries_skip ws (reads d rfl) _ all 0 []
        (pos + 1 + line.length + 2) s (by omega) at_line.drop_rest
      · exact .inl raised
      · exact .inr ⟨.map entries, done⟩

theorem readsBytes_of_complete {pos d : Nat} (enough : b.length ≤ d + pos) {w : Bytes}
    (complete : Complete w) : ReadsBytes b (parseValue mem b d) pos w := by
  intro cur s above here
  exact parseValue_complete complete here (by omega)

/-- What needs memory stands on a line, and the line asks for it. -/
theorem Needs.line {part s : Bytes} {offset pos : Nat} {r : Request} (needs : Needs part offset r)
    (h : b.drop pos = part ++ s) :
    ∃ type line rest, LineAt b pos type line rest ∧
      LineAsks b line pos (pos + 1 + line.length + 2) type (pos + offset) r := by
  cases needs with
  | simple clean => exact ⟨_, _, _, LineAt.of_header clean h, .simple⟩
  | code clean => exact ⟨_, _, _, LineAt.of_header clean h, .code⟩
  | message clean =>
    refine ⟨_, _, _, LineAt.of_header clean h, ?_⟩
    rw [← Nat.add_assoc, ← Nat.add_assoc]
    exact .message
  | @bulk line data len clean number size =>
    rw [List.append_assoc, List.append_assoc] at h
    have at_line := LineAt.of_header clean h
    refine ⟨_, _, _, at_line, ?_⟩
    rw [← Nat.add_assoc, ← Nat.add_assoc]
    exact .bulk_data pos number size (by rw [at_line.drop_rest, List.append_assoc])
  | array clean number sign => exact ⟨_, _, _, LineAt.of_header clean h, .array number sign⟩
  | map clean number sign => exact ⟨_, _, _, LineAt.of_header clean h, .map number sign⟩

/-- A request that is refused, where a value is expected, makes the parse raise. -/
theorem parseValue_raises {before part rest : Bytes} {offset : Nat} {r : Request}
    (expects : Expects before) (needs : Needs part offset r) {pos depth : Nat}
    (h : b.drop pos = before ++ part ++ rest) (enough : b.length + 1 ≤ depth + pos)
    (refuses : mem.Refuses (pos + before.length + offset) r) :
    ∃ e, parseValue mem b depth pos = .error e := by
  induction expects generalizing pos depth with
  | start =>
    rw [List.nil_append] at h
    obtain ⟨type, line, behind, at_line, line_asks⟩ := needs.line h
    obtain ⟨d, rfl, parsed⟩ := at_line.parseValue_eq mem enough
    rw [parsed]
    exact line_asks.raises refuses
  | @inside outer deeper values ws opens some complete _ ih =>
    rw [List.append_assoc, List.append_assoc, List.append_assoc, ← List.append_assoc deeper] at h
    rw [List.length_append, List.length_append, ← Nat.add_assoc, ← Nat.add_assoc] at refuses
    cases opens with
    | @array line count clean number sign =>
      have at_line := LineAt.of_header clean h
      have length := at_line.length_eq
      obtain ⟨d, rfl, parsed⟩ := at_line.parseValue_eq mem enough
      rw [← LineAt.header_length] at refuses
      obtain ⟨e, raised⟩ : ∃ e, parseValue mem b d _ = .error e :=
        ih (drop_past at_line.drop_rest) (by omega) refuses
      rw [parsed]
      by_cases full : mem.Refuses pos (.items count.toInt.toNat)
      · exact LineAsks.raises (.array number sign) full
      rw [parseLine_array number sign _ full]
      exact parseItems_raises (fun w held => readsBytes_of_complete (by omega) (complete w held))
        some [] (by omega) at_line.drop_rest raised
    | @map line pairs clean number sign =>
      have at_line := LineAt.of_header clean h
      have length := at_line.length_eq
      obtain ⟨d, rfl, parsed⟩ := at_line.parseValue_eq mem enough
      rw [← LineAt.header_length] at refuses
      obtain ⟨e, raised⟩ : ∃ e, parseValue mem b d _ = .error e :=
        ih (drop_past at_line.drop_rest) (by omega) refuses
      rw [parsed]
      by_cases full : mem.Refuses pos (.entries pairs.toInt.toNat)
      · exact LineAsks.raises (.map number sign) full
      rw [parseLine_map number sign _ full]
      exact parseEntries_raises (fun w held => readsBytes_of_complete (by omega) (complete w held))
        some [] (by omega) at_line.drop_rest raised

/-- `decode` lets an exception out exactly when something that the buffer needs is refused. -/
theorem decode_raises_iff (mem : Heap) (b : Bytes) :
    (∃ e, decode mem b = .error e) ↔ Starves mem b := by
  constructor
  · rintro ⟨e, raised⟩
    have known : e ≠ .depth := by
      rintro rfl
      exact decode_ne_depth mem b raised
    cases parsed : parseValue mem b (b.length + 1) 0 with
    | ok st => simp [decode, parsed, Except.map] at raised
    | error e' =>
      obtain rfl : e' = e := by simpa [decode, parsed, Except.map] using raised
      obtain ⟨offset, r, requests, refuses⟩ := parseValue_starvesAt _ 0 _ parsed known
      rw [Nat.zero_add] at refuses
      exact ⟨offset, r, requests, refuses⟩
  · rintro ⟨place, r, ⟨before, part, rest, offset, expects, needs, same, rfl⟩, refuses⟩
    rw [← Nat.zero_add before.length] at refuses
    obtain ⟨e, parsed⟩ : ∃ e, parseValue mem b (b.length + 1) 0 = .error e :=
      parseValue_raises expects needs same le_rfl refuses
    exact ⟨e, by rw [decode, parsed]; rfl⟩

/-- The whole values are those that the grammar spells, where the heap grants what they need. -/
theorem whole_iff_complete (mem : Heap) (b : Bytes) :
    Whole mem b ↔ Complete b ∧ ¬Starves mem b := by
  rw [← decode_raises_iff]
  constructor
  · rintro ⟨v, whole⟩
    obtain ⟨w, walk⟩ := parseValue_consumes _ 0 _ (parseValue_of_decode whole) rfl
    have bytes := walk.bytes
    rw [List.drop_length, List.flatten_singleton, List.append_nil, List.drop_zero] at bytes
    constructor
    · rw [bytes]
      exact walk.complete w (by simp)
    · rintro ⟨e, raised⟩
      rw [whole] at raised
      cases raised
  · rintro ⟨complete, returns⟩
    have whole : b.drop 0 = b ++ [] := (List.append_nil b).symm
    have enough : b.length + 1 ≤ b.length + 1 + 0 := le_rfl
    obtain ⟨e, raised⟩ | ⟨v, parsed⟩ : (∃ e, parseValue mem b (b.length + 1) 0 = .error e) ∨
        ∃ v, parseValue mem b (b.length + 1) 0 = .ok ⟨.ok, v, 0 + b.length⟩ :=
      parseValue_complete complete whole enough
    · exact absurd ⟨e, by rw [decode, raised]; rfl⟩ returns
    · refine ⟨v, ?_⟩
      rw [decode, parsed, Nat.zero_add]
      rfl

end IndustrialRuntime.Irsp.Irsp1Codec

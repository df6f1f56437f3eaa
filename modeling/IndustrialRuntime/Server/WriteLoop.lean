import IndustrialRuntime.Server.WriteBack

namespace IndustrialRuntime.Irsp

open IndustrialRuntime.Core

namespace CoreTagWriter

/-- The labels of the numbers with the bytes they take. -/
def widths : List (Bytes × Nat) :=
  [(ascii "i8", 1), (ascii "i16", 2), (ascii "i32", 4), (ascii "i64", 8), (ascii "u8", 1),
    (ascii "u16", 2), (ascii "u32", 4), (ascii "u64", 8), (ascii "f32", 4), (ascii "f64", 8)]

/-- The bytes are the one way to write a value of the type. -/
def Canonical (type bytes : Bytes) : Prop :=
  (type = ascii "null" ∧ bytes = []) ∨ (type = ascii "bool" ∧ (bytes = [0] ∨ bytes = [1])) ∨
    (type, bytes.length) ∈ widths ∨ type = ascii "str"

theorem readLE_cons (width : Nat) (c : UInt8) (b : Bytes) :
    readLE (width + 1) (c :: b) = c.toNat + 256 * readLE width b := by
  simp [readLE]

theorem readLE_lt (width : Nat) (b : Bytes) : readLE width b < 256 ^ width := by
  induction width generalizing b with
  | zero => simp [readLE]
  | succ width ih =>
    cases b with
    | nil => exact Nat.pow_pos (by decide)
    | cons c b =>
      have low := c.toNat_lt
      have high := ih b
      rw [readLE_cons, Nat.pow_succ']
      omega

/-- The bytes of a number are those it is read from. -/
theorem rawBytes_readLE (b : Bytes) : rawBytes b.length (readLE b.length b) = b := by
  induction b with
  | nil => rfl
  | cons c b ih =>
    have low := c.toNat_lt
    have first : UInt8.ofNat (c.toNat + 256 * readLE b.length b) = c := by
      apply UInt8.toNat_inj.mp
      rw [UInt8.toNat_ofNat']
      omega
    have rest : (c.toNat + 256 * readLE b.length b) / 256 = readLE b.length b := by
      omega
    rw [List.length_cons, readLE_cons, rawBytes_succ, first, rest, ih]

theorem canonical_encodes {type bytes : Bytes} (canonical : Canonical type bytes) :
    ∃ v, encodeVariant v = (type, bytes) := by
  have number {width : Nat} (fits : bytes.length = width) {n : Nat}
      (same : n = readLE width bytes) : rawBytes width n = bytes := by
    rw [same, ← fits, rawBytes_readLE]
  have one := readLE_lt 1 bytes
  have two := readLE_lt 2 bytes
  have four := readLE_lt 4 bytes
  have eight := readLE_lt 8 bytes
  obtain ⟨rfl, rfl⟩ | ⟨rfl, rfl | rfl⟩ | number_type | rfl := canonical
  · exact ⟨.null, rfl⟩
  · exact ⟨.bool false, rfl⟩
  · exact ⟨.bool true, rfl⟩
  · simp only [widths, List.mem_cons, List.not_mem_nil, or_false, Prod.mk.injEq] at number_type
    obtain ⟨rfl, fits⟩ | ⟨rfl, fits⟩ | ⟨rfl, fits⟩ | ⟨rfl, fits⟩ | ⟨rfl, fits⟩ | ⟨rfl, fits⟩ |
      ⟨rfl, fits⟩ | ⟨rfl, fits⟩ | ⟨rfl, fits⟩ | ⟨rfl, fits⟩ := number_type
    · refine ⟨.int8 (UInt8.ofNat (readLE 1 bytes)).toInt8, ?_⟩
      exact congrArg (Prod.mk _) (number fits (by simp; omega))
    · refine ⟨.int16 (UInt16.ofNat (readLE 2 bytes)).toInt16, ?_⟩
      exact congrArg (Prod.mk _) (number fits (by simp; omega))
    · refine ⟨.int32 (UInt32.ofNat (readLE 4 bytes)).toInt32, ?_⟩
      exact congrArg (Prod.mk _) (number fits (by simp; omega))
    · refine ⟨.int64 (UInt64.ofNat (readLE 8 bytes)).toInt64, ?_⟩
      exact congrArg (Prod.mk _) (number fits (by simp; omega))
    · refine ⟨.uint8 (UInt8.ofNat (readLE 1 bytes)), ?_⟩
      exact congrArg (Prod.mk _) (number fits (by simp; omega))
    · refine ⟨.uint16 (UInt16.ofNat (readLE 2 bytes)), ?_⟩
      exact congrArg (Prod.mk _) (number fits (by simp; omega))
    · refine ⟨.uint32 (UInt32.ofNat (readLE 4 bytes)), ?_⟩
      exact congrArg (Prod.mk _) (number fits (by simp; omega))
    · refine ⟨.uint64 (UInt64.ofNat (readLE 8 bytes)), ?_⟩
      exact congrArg (Prod.mk _) (number fits (by simp; omega))
    · refine ⟨.float (UInt32.ofNat (readLE 4 bytes)), ?_⟩
      exact congrArg (Prod.mk _) (number fits (by simp; omega))
    · refine ⟨.double (UInt64.ofNat (readLE 8 bytes)), ?_⟩
      exact congrArg (Prod.mk _) (number fits (by simp; omega))
  · exact ⟨.string bytes, rfl⟩

theorem toVariant_canonical {type bytes : Bytes} (canonical : Canonical type bytes) :
    ∃ v, toVariant type bytes = some v ∧ encodeVariant v = (type, bytes) := by
  obtain ⟨v, encoded⟩ := canonical_encodes canonical
  have decoded := toVariant_encodeVariant v
  rw [encoded] at decoded
  exact ⟨v, decoded, encoded⟩

end CoreTagWriter

namespace Backend

variable {hash : Bytes → UInt64} {code : Handler → IrPluginWriteFn hash} {clock : Timestamp}

/-- A handler that does nothing but push back the value it is given. -/
def Echoes (pushClock : Timestamp) (f : IrPluginWriteFn hash) : Prop :=
  ∀ ctx tag b pushed, pushTagThunk pushClock tag b = some pushed → (f ctx tag b).2 = pushed.2

/-- What an echoed write leaves in the store. -/
theorem read_call_echo {pushClock : Timestamp} {reg : WriteReg}
    (echo : Echoes pushClock (code reg.handler)) (b : Backend hash) (tag : TagValue)
    (named : tag.name ≠ []) :
    (b.call code reg tag).2.engine.read tag.name =
      some ⟨tag.name, dataTypeOf tag.value, PluginHost.toTimestamp pushClock tag.timestamp,
        tag.value⟩ := by
  let during : Backend hash := { b with host := b.host.addInflight reg.owner 1 }
  let stored : TagValue := ⟨tag.name, dataTypeOf tag.value,
    PluginHost.toTimestamp pushClock tag.timestamp, tag.value⟩
  let r := during.engine.writeImpl stored
  have pushed : pushTagThunk pushClock (PluginHost.toAbi tag) during =
      some (if r.1 then 1 else 0, { during with engine := r.2 }) := by
    simp only [pushTagThunk, PluginHost.fromAbi_toAbi, Option.map_some, r, stored]
  have left : (b.call code reg tag).2 = { during with engine := r.2 } :=
    echo reg.pluginCtx (PluginHost.toAbi tag) during _ pushed
  have found : r.2.lookup tag.name = some stored := by
    rw [TagEngine.lookup_writeImpl, if_pos rfl]
  rw [left, TagEngine.read_eq _ named]
  exact found

/-- A value that was accepted by a handler that echoes it is read back as it was
written, for every type and every bytes. -/
theorem get_after_set (code : Handler → IrPluginWriteFn hash) (clock pushClock : Timestamp)
    (d : Dispatcher) (session : Session) (b : Backend hash) (name type bytes : Bytes)
    (named : name ≠ []) (canonical : CoreTagWriter.Canonical type bytes) (reg : WriteReg)
    (routed : b.host.select name = some reg) (echo : Echoes pushClock (code reg.handler)) :
    let writer := some (tagWriter code clock)
    let r := Dispatcher.handle (tagSource hash) writer d session b
      (Dispatcher.commandLine (ascii "SET") [name, type, bytes])
    r.reply = .simple (ascii "OK") →
      ∃ ts, (Dispatcher.handle (tagSource hash) writer r.dispatcher r.session r.store
        (Dispatcher.commandLine (ascii "GET") [name])).reply =
          .map [(.bulk (ascii "name"), .bulk name), (.bulk (ascii "type"), .bulk type),
            (.bulk (ascii "ts"), .integer ts), (.bulk (ascii "value"), .bulk bytes)] := by
  intro writer r ok
  have greeted : session.hello := by
    by_contra closed
    have refused : r.reply = makeError "NOT_READY" "HELLO required first" :=
      congrArg Dispatcher.Handled.reply (Dispatcher.handle_closed _ d b _ _ closed (by decide))
    rw [refused] at ok
    contradiction
  obtain ⟨v, converts, encoded⟩ := CoreTagWriter.toVariant_canonical canonical
  have written : tagWriter code clock b name type bytes = _ := tagWriter_routed converts routed
  have answered := Dispatcher.handle_set (tagSource hash) (tagWriter code clock) d b greeted
    name type bytes
  let called := b.call code reg (TagValue.of name v clock)
  have kept : called.2.engine.read name =
      some ⟨name, dataTypeOf v, PluginHost.toTimestamp pushClock clock, v⟩ :=
    read_call_echo echo b (TagValue.of name v clock) named
  by_cases positive : called.1.Positive
  · have left : r = ⟨.simple (ascii "OK"), session, d,
        { called.2 with host := called.2.host.addInflight reg.owner (-1) }⟩ := by
      refine answered.trans ?_
      simp only [Dispatcher.set, written, called] at positive ⊢
      simp only [positive, if_true]
    refine ⟨PluginHost.toTimestamp pushClock clock, ?_⟩
    rw [left, Dispatcher.handle_get _ _ _ _ greeted]
    simp only [Dispatcher.getTag, tagSource, CoreTagSource.read, kept, Option.map_some,
      CoreTagSource.toRecord, encoded, Option.elim_some, tagToMap]
  · have refused : r.reply = makeError "NOT_FOUND" "no writer for topic" := by
      refine (congrArg Dispatcher.Handled.reply answered).trans ?_
      simp only [Dispatcher.set, written, called] at positive ⊢
      simp only [positive, if_false]
    rw [refused] at ok
    contradiction

/-- A device that pushes back every value it accepts. -/
def echoing : Handler → IrPluginWriteFn (fun _ => 0) := fun _ _ tag b =>
  match pushTagThunk 7 tag b with
  | some pushed => (.returned 1, pushed.2)
  | none => (.returned 0, b)

/-- The 16-bit value -2 goes to the device and comes back. -/
theorem get_after_set_echoing :
    let r := Dispatcher.handle (tagSource fun _ => 0) (some (tagWriter echoing 3)) .empty ⟨1, true⟩
      oneWriter (Dispatcher.commandLine (ascii "SET") [ascii "a/x", ascii "i16", [254, 255]])
    ∃ ts, (Dispatcher.handle (tagSource fun _ => 0) (some (tagWriter echoing 3)) r.dispatcher
      r.session r.store (Dispatcher.commandLine (ascii "GET") [ascii "a/x"])).reply =
        .map [(.bulk (ascii "name"), .bulk (ascii "a/x")),
          (.bulk (ascii "type"), .bulk (ascii "i16")), (.bulk (ascii "ts"), .integer ts),
          (.bulk (ascii "value"), .bulk [254, 255])] := by
  have echo : Echoes 7 (echoing ⟨1, 0⟩) := by
    intro ctx tag b pushed given
    simp only [echoing, given]
  have canonical : CoreTagWriter.Canonical (ascii "i16") [254, 255] :=
    .inr (.inr (.inl (by decide)))
  exact get_after_set echoing 3 7 .empty ⟨1, true⟩ oneWriter (ascii "a/x") (ascii "i16") [254, 255]
    (by decide) canonical ⟨ascii "a/", 0, ⟨1, 0⟩, 1⟩ (by decide) echo rfl

end Backend

end IndustrialRuntime.Irsp

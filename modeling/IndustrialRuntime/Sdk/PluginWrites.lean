import IndustrialRuntime.Server.WriteRouting

namespace IndustrialRuntime.Irsp

open IndustrialRuntime.Core

/-- A `std::function` that is not empty, by the closure it holds. -/
abbrev Callback := Nat

/-- How a call of a callback ends. -/
inductive Answer where
  | returned (accepted : Bool)
  | threw
  deriving DecidableEq, Repr

/-- What the closures do, with all that they reach through the host's functions. -/
abbrev Closures (hash : Bytes → UInt64) :=
  Callback → IrPluginTagValue → Backend hash → Answer × Backend hash

namespace IrPlugin

/-- `irplugin::Host`. `api` tells whether it has the table of a host; `address` is where it is. -/
structure Host where
  api : Bool
  address : Nat
  writeCb : Option Callback
  writePrefix : Bytes

/-- What C sees of `std::string::c_str()`. -/
def cString (s : Bytes) : Bytes := s.takeWhile (· ≠ 0)

/-- `Host::onWrite`, with the host that the table belongs to. -/
def onWrite (trampoline : Handler) (host : Host) (h : PluginHost) (topicPrefix : Bytes)
    (cb : Callback) : Host × PluginHost :=
  let host := { host with writeCb := some cb, writePrefix := topicPrefix }
  (host, if host.api then
    h.registerWriterThunk (some (cString host.writePrefix)) host.address (some trampoline)
    else h)

/-- `Host::writeTrampoline`; an exception of the callback passes through it. -/
def writeTrampoline {hash : Bytes → UInt64} (run : Closures hash) (host : Host)
    (tag : IrPluginTagValue) (b : Backend hash) : Outcome × Backend hash :=
  match host.writeCb with
  | none => (.returned 0, b)
  | some cb =>
    match run cb tag b with
    | (.returned true, b) => (.returned 1, b)
    | (.returned false, b) => (.returned 0, b)
    | (.threw, b) => (.threw, b)

/-- The code of the handlers: the trampoline on this object, or that of others. -/
def code {hash : Bytes → UInt64} (trampoline : Handler) (run : Closures hash) (host : Host)
    (others : Handler → IrPluginWriteFn hash) : Handler → IrPluginWriteFn hash :=
  fun handler pluginCtx tag b =>
    if handler = trampoline ∧ pluginCtx = host.address then writeTrampoline run host tag b
    else others handler pluginCtx tag b

/-- What happens to the table: this object registers, another plugin does, or the manager
sets the owner of the registrations to come. -/
inductive Step where
  | onWrite (topicPrefix : Bytes) (cb : Callback)
  | register (topicPrefix : Bytes) (pluginCtx : Nat) (handler : Handler)
  | setActiveOwner (owner : OwnerId)
  deriving DecidableEq, Repr

/-- The object and the host that it registers with. -/
structure Setting where
  host : Host
  table : PluginHost

def Setting.step (trampoline : Handler) (s : Setting) : Step → Setting
  | .onWrite topicPrefix cb =>
    let r := onWrite trampoline s.host s.table topicPrefix cb
    ⟨r.1, r.2⟩
  | .register topicPrefix pluginCtx handler =>
    { s with table := s.table.registerWriterThunk (some topicPrefix) pluginCtx (some handler) }
  | .setActiveOwner owner => { s with table := s.table.setActiveOwner owner }

/-- `Host(api)` at an address, with a host that others may have registered with. -/
def Setting.start (address : Nat) (table : PluginHost) : Setting :=
  ⟨⟨true, address, none, []⟩, table⟩

def Setting.run (trampoline : Handler) (s : Setting) (steps : List Step) : Setting :=
  steps.foldl (Setting.step trampoline) s

/-- The calls of `onWrite`, in order. -/
def passed (steps : List Step) : List (Bytes × Callback) :=
  steps.filterMap fun
    | .onWrite topicPrefix cb => some (topicPrefix, cb)
    | _ => none

/-- A registration of the object. -/
def Own (trampoline : Handler) (address : Nat) (pluginCtx : Nat) (handler : Handler) : Prop :=
  handler = trampoline ∧ pluginCtx = address

/-- The other plugins do not register this object. -/
def Foreign (trampoline : Handler) (address : Nat) : Step → Prop
  | .register _ pluginCtx handler => ¬Own trampoline address pluginCtx handler
  | _ => True

/-- The last callback passed is the one that is called, and what has been registered for the
object are the prefixes passed, as C strings. -/
structure Registered (trampoline : Handler) (address : Nat) (s : Setting)
    (calls : List (Bytes × Callback)) : Prop where
  api : s.host.api = true
  address_eq : s.host.address = address
  last : s.host.writeCb = calls.getLast?.map Prod.snd
  distinct : s.table.Distinct
  own : ∀ reg ∈ s.table.writers, Own trampoline address reg.pluginCtx reg.handler →
    ∃ call ∈ calls, cString call.1 = reg.topicPrefix
  held : ∀ call ∈ calls, ∃ reg ∈ s.table.writers, reg.topicPrefix = cString call.1

variable {trampoline : Handler} {address : Nat}

theorem registered_start {table : PluginHost} (distinct : table.Distinct)
    (fresh : ∀ reg ∈ table.writers, ¬Own trampoline address reg.pluginCtx reg.handler) :
    Registered trampoline address (Setting.start address table) [] where
  api := rfl
  address_eq := rfl
  last := rfl
  distinct := distinct
  own reg held own := absurd own (fresh reg held)
  held _ none := absurd none List.not_mem_nil

theorem Registered.onWrite {s : Setting} {calls : List (Bytes × Callback)}
    (inv : Registered trampoline address s calls) (topicPrefix : Bytes) (cb : Callback) :
    Registered trampoline address (s.step trampoline (.onWrite topicPrefix cb))
      (calls ++ [(topicPrefix, cb)]) := by
  let h := s.table.registerWriter (cString topicPrefix) s.host.address trampoline
  have table : (s.step trampoline (.onWrite topicPrefix cb)).table = h := by
    simp only [Setting.step, IrPlugin.onWrite, inv.api, if_true]
    rfl
  refine ⟨inv.api, inv.address_eq, ?_, ?_, ?_, ?_⟩
  · rw [List.getLast?_append]
    rfl
  · rw [table]
    exact PluginHost.distinct_registerWriter inv.distinct _ _ _
  · rw [table]
    intro reg held own
    obtain before | new := PluginHost.mem_registerWriter _ _ _ _ reg held
    · obtain ⟨call, listed, same⟩ := inv.own reg before own
      exact ⟨call, List.mem_append_left _ listed, same⟩
    · exact ⟨(topicPrefix, cb), by simp, by rw [new]⟩
  · rw [table]
    intro call listed
    obtain before | new := List.mem_append.mp listed
    · obtain ⟨reg, held, same⟩ := inv.held call before
      exact ⟨reg, PluginHost.subset_registerWriter _ _ _ _ held, same⟩
    · rw [List.mem_singleton.mp new]
      exact PluginHost.held_registerWriter _ _ _ _

theorem Registered.register {s : Setting} {calls : List (Bytes × Callback)}
    (inv : Registered trampoline address s calls) (topicPrefix : Bytes) {pluginCtx : Nat}
    {handler : Handler} (foreign : ¬Own trampoline address pluginCtx handler) :
    Registered trampoline address (s.step trampoline (.register topicPrefix pluginCtx handler))
      calls where
  api := inv.api
  address_eq := inv.address_eq
  last := inv.last
  distinct := PluginHost.distinct_registerWriter inv.distinct _ _ _
  own := by
    intro reg held own
    obtain before | new := PluginHost.mem_registerWriter _ _ _ _ reg held
    · exact inv.own reg before own
    · rw [new] at own
      exact absurd own foreign
  held := by
    intro call listed
    obtain ⟨reg, held, same⟩ := inv.held call listed
    exact ⟨reg, PluginHost.subset_registerWriter _ _ _ _ held, same⟩

/-- What one step preserves. -/
theorem Registered.step {s : Setting} {calls : List (Bytes × Callback)}
    (inv : Registered trampoline address s calls) (a : Step)
    (foreign : Foreign trampoline address a) :
    Registered trampoline address (s.step trampoline a) (calls ++ passed [a]) := by
  cases a with
  | onWrite topicPrefix cb => exact inv.onWrite topicPrefix cb
  | register topicPrefix pluginCtx handler =>
    rw [show passed [Step.register topicPrefix pluginCtx handler] = [] from rfl, List.append_nil]
    exact inv.register topicPrefix foreign
  | setActiveOwner owner =>
    rw [show passed [Step.setActiveOwner owner] = [] from rfl, List.append_nil]
    exact ⟨inv.api, inv.address_eq, inv.last, inv.distinct, inv.own, inv.held⟩

theorem passed_append (steps steps' : List Step) :
    passed (steps ++ steps') = passed steps ++ passed steps' :=
  List.filterMap_append

theorem Registered.run {s : Setting} {calls : List (Bytes × Callback)}
    (inv : Registered trampoline address s calls) (steps : List Step)
    (foreign : ∀ a ∈ steps, Foreign trampoline address a) :
    Registered trampoline address (s.run trampoline steps) (calls ++ passed steps) := by
  induction steps generalizing s calls with
  | nil => rwa [show passed [] = [] from rfl, List.append_nil]
  | cons a steps ih =>
    have one := inv.step a (foreign a List.mem_cons_self)
    have rest := ih one fun b later => foreign b (List.mem_cons_of_mem a later)
    rw [List.append_assoc, ← passed_append, List.singleton_append] at rest
    exact rest

/-- A write of the tag calls this callback, on the bytes of the tag, and returns what it
returned; an exception counts as refused. -/
def Invokes (trampoline : Handler) (s : Setting) (tag : TagValue) (cb : Callback) : Prop :=
  ∀ (hash : Bytes → UInt64) (run : Closures hash) (others : Handler → IrPluginWriteFn hash)
    (b : Backend hash), b.host = s.table →
      ∃ owner,
        let r := run cb (PluginHost.toAbi tag) { b with host := b.host.addInflight owner 1 }
        Backend.hostWrite (code trampoline run s.host others) tag b =
          (decide (r.1 = .returned true),
            { r.2 with host := r.2.host.addInflight owner (-1) })

theorem positive_writeTrampoline {hash : Bytes → UInt64} (run : Closures hash) {host : Host}
    {cb : Callback} (held : host.writeCb = some cb) (tag : IrPluginTagValue) (b : Backend hash) :
    decide (writeTrampoline run host tag b).1.Positive =
        decide ((run cb tag b).1 = .returned true) ∧
      (writeTrampoline run host tag b).2 = (run cb tag b).2 := by
  simp only [writeTrampoline, held]
  generalize run cb tag b = r
  obtain ⟨(_ | _) | _, left⟩ := r <;> exact ⟨rfl, rfl⟩

/-- A write that is routed to the object calls the callback it has. -/
theorem invokes_of_own {s : Setting} {calls : List (Bytes × Callback)}
    (inv : Registered trampoline address s calls) {tag : TagValue} {reg : WriteReg} {cb : Callback}
    (selected : s.table.select tag.name = some reg)
    (own : Own trampoline address reg.pluginCtx reg.handler) (held : s.host.writeCb = some cb) :
    Invokes trampoline s tag cb := by
  intro hash run others b same
  rw [← same] at selected
  have calls : Backend.Calls (code trampoline run s.host others) tag b reg :=
    Backend.calls_of_select selected
  have here (b' : Backend hash) : code trampoline run s.host others reg.handler reg.pluginCtx
      (PluginHost.toAbi tag) b' = writeTrampoline run s.host (PluginHost.toAbi tag) b' := by
    rw [code, if_pos ⟨own.1, own.2.trans inv.address_eq.symm⟩]
  obtain ⟨answers, leaves⟩ := positive_writeTrampoline run held (PluginHost.toAbi tag)
    { b with host := b.host.addInflight reg.owner 1 }
  refine ⟨reg.owner, ?_⟩
  simp only [Backend.Calls, here, answers, leaves] at calls
  exact calls

/-- Closures that accept when they are the given one, and handlers that do not. -/
def telling (cb : Callback) : Closures fun _ => 0 := fun called _ b => (.returned (called == cb), b)

def refusing : Handler → IrPluginWriteFn fun _ => 0 := fun _ _ _ b => (.returned 0, b)

/-- A write that calls a callback has been routed to the object, which has that callback. -/
theorem own_of_invokes {s : Setting} {calls : List (Bytes × Callback)}
    (inv : Registered trampoline address s calls) {tag : TagValue} {cb : Callback}
    (invokes : Invokes trampoline s tag cb) :
    ∃ reg, s.table.select tag.name = some reg ∧ Own trampoline address reg.pluginCtx reg.handler ∧
      s.host.writeCb = some cb := by
  let handlers := code trampoline (telling cb) s.host refusing
  let b : Backend fun _ => 0 := ⟨s.table, .empty⟩
  obtain ⟨owner, answered⟩ := invokes _ (telling cb) refusing b rfl
  have accepted : (Backend.hostWrite handlers tag b).1 = true := by
    rw [answered]
    simp [telling]
  cases selected : s.table.select tag.name with
  | none =>
    have unrouted : b.host.select tag.name = none := selected
    rw [Backend.hostWrite_unrouted unrouted] at accepted
    cases accepted
  | some reg =>
    have routed : b.host.select tag.name = some reg := selected
    have calls : Backend.Calls handlers tag b reg := Backend.calls_of_select routed
    rw [Backend.Calls] at calls
    simp only [calls, handlers, code] at accepted
    split_ifs at accepted with here
    · refine ⟨reg, rfl, ⟨here.1, here.2.trans inv.address_eq⟩, ?_⟩
      cases held : s.host.writeCb with
      | none =>
        simp [writeTrampoline, held, Outcome.Positive] at accepted
      | some last =>
        have same : last = cb := by
          simpa [(positive_writeTrampoline _ held _ _).1, telling] using accepted
        rw [same]
    · simp [refusing, Outcome.Positive] at accepted

/-- The call passed the longest of the prefixes that the name has. -/
structure PassedLongest (calls : List (Bytes × Callback)) (name : Bytes)
    (call : Bytes × Callback) : Prop where
  listed : call ∈ calls
  matching : call.1 <+: name
  longest : ∀ other ∈ calls, other.1 <+: name → other.1.length ≤ call.1.length

/-- The tag is written through the callback passed with the longest prefix of its name. -/
def KeepsCallback (trampoline : Handler) (s : Setting) (calls : List (Bytes × Callback))
    (tag : TagValue) : Prop :=
  ∀ call, PassedLongest calls tag.name call → Invokes trampoline s tag call.2

/-- A prefix passed, as a C string, is longer than those of the name that others have. -/
def Unshadowed (trampoline : Handler) (address : Nat) (s : Setting)
    (calls : List (Bytes × Callback)) (name : Bytes) : Prop :=
  ∃ call ∈ calls, cString call.1 <+: name ∧
    ∀ reg ∈ s.table.writers, ¬Own trampoline address reg.pluginCtx reg.handler →
      reg.topicPrefix <+: name → reg.topicPrefix.length < (cString call.1).length

theorem unshadowed_of_own {s : Setting} {calls : List (Bytes × Callback)}
    (inv : Registered trampoline address s calls) {name : Bytes} {reg : WriteReg}
    (selected : s.table.select name = some reg)
    (own : Own trampoline address reg.pluginCtx reg.handler) :
    Unshadowed trampoline address s calls name := by
  have responsible := PluginHost.responsible_of_select selected
  obtain ⟨call, listed, same⟩ := inv.own reg responsible.registered own
  refine ⟨call, listed, ?_, ?_⟩
  · rw [same]
    exact responsible.matching
  · intro other held foreign matching
    rw [same]
    apply lt_of_le_of_ne (responsible.longest other held matching)
    intro length
    have nested := List.prefix_of_prefix_length_le matching responsible.matching length.le
    have one := List.inj_on_of_nodup_map inv.distinct held responsible.registered
      (nested.eq_of_length length)
    rw [one] at foreign
    exact foreign own

theorem own_of_unshadowed {s : Setting} {calls : List (Bytes × Callback)}
    (inv : Registered trampoline address s calls) {name : Bytes}
    (unshadowed : Unshadowed trampoline address s calls name) :
    ∃ reg, s.table.select name = some reg ∧
      Own trampoline address reg.pluginCtx reg.handler := by
  obtain ⟨call, listed, matching, shorter⟩ := unshadowed
  obtain ⟨held, registered, same⟩ := inv.held call listed
  rw [← same] at matching shorter
  cases selected : s.table.select name with
  | none => exact absurd matching (PluginHost.not_matching_of_select selected held registered)
  | some reg =>
    refine ⟨reg, rfl, ?_⟩
    by_contra foreign
    have responsible := PluginHost.responsible_of_select selected
    have less := shorter reg responsible.registered foreign responsible.matching
    have least := responsible.longest held registered matching
    omega

/-- A write goes through the callback passed with the longest prefix of its name just when
that is the callback passed last, and no other plugin has a prefix of the name as long. -/
theorem keeps_callback_iff {h : PluginHost} (distinct : h.Distinct)
    (fresh : ∀ reg ∈ h.writers, ¬Own trampoline address reg.pluginCtx reg.handler)
    (steps : List Step) (foreign : ∀ a ∈ steps, Foreign trampoline address a) (tag : TagValue) :
    let s := (Setting.start address h).run trampoline steps
    KeepsCallback trampoline s (passed steps) tag ↔
      ∀ call, PassedLongest (passed steps) tag.name call →
        (passed steps).getLast?.map Prod.snd = some call.2 ∧
          Unshadowed trampoline address s (passed steps) tag.name := by
  intro s
  have inv : Registered trampoline address s (passed steps) :=
    (registered_start distinct fresh).run steps foreign
  constructor
  · intro keeps call longest
    obtain ⟨reg, selected, own, held⟩ := own_of_invokes inv (keeps call longest)
    rw [inv.last] at held
    exact ⟨held, unshadowed_of_own inv selected own⟩
  · intro lasts call longest
    obtain ⟨last, unshadowed⟩ := lasts call longest
    obtain ⟨reg, selected, own⟩ := own_of_unshadowed inv unshadowed
    exact invokes_of_own inv selected own (inv.last.trans last)

theorem fresh_initial : ∀ reg ∈ PluginHost.initial.writers,
    ¬Own trampoline address reg.pluginCtx reg.handler := by
  intro reg none
  exact absurd none List.not_mem_nil

/-- Two prefixes of one object, and between them another plugin's registration. -/
def nested : List Step :=
  [.setActiveOwner 1, .onWrite (ascii "a/") 1, .setActiveOwner 2,
    .register (ascii "a/b/c/") 9 ⟨2, 0⟩, .setActiveOwner 1, .onWrite (ascii "a/b/") 2]

/-- What was passed last keeps its callback where the other plugin has no longer prefix. -/
theorem keeps_callback_iff_nested :
    let s := (Setting.start 7 .initial).run ⟨1, 0⟩ nested
    KeepsCallback ⟨1, 0⟩ s (passed nested) (TagValue.of (ascii "a/b/x") .null 0) ∧
      ¬KeepsCallback ⟨1, 0⟩ s (passed nested) (TagValue.of (ascii "a/x") .null 0) ∧
      ¬KeepsCallback ⟨1, 0⟩ s (passed nested) (TagValue.of (ascii "a/b/c/x") .null 0) := by
  intro s
  have foreign : ∀ a ∈ nested, Foreign ⟨1, 0⟩ 7 a := by
    simp [nested, Foreign, Own]
  have exactly := keeps_callback_iff PluginHost.distinct_initial fresh_initial nested foreign
  have longest (name : Bytes) (call : Bytes × Callback) (listed : call ∈ passed nested)
      (matching : call.1 <+: name)
      (others : ∀ other ∈ passed nested, other.1 <+: name → other.1.length ≤ call.1.length) :
      PassedLongest (passed nested) name call := ⟨listed, matching, others⟩
  refine ⟨(exactly _).mpr fun call first => ?_, fun keeps => ?_, fun keeps => ?_⟩
  · obtain rfl | rfl : call = (ascii "a/", 1) ∨ call = (ascii "a/b/", 2) := by
      simpa [passed, nested] using first.listed
    · exact absurd (first.longest (ascii "a/b/", 2) (by decide) (by decide)) (by decide)
    · refine ⟨rfl, ?_⟩
      unfold Unshadowed Own
      decide
  · have last := ((exactly _).mp keeps (ascii "a/", 1)
      (longest _ _ (by decide) (by decide) (by decide))).1
    revert last
    decide
  · have unshadowed := ((exactly _).mp keeps (ascii "a/b/", 2)
      (longest _ _ (by decide) (by decide) (by decide))).2
    revert unshadowed
    unfold Unshadowed Own
    decide

/-- A plugin that writes two devices through a callback each. -/
def twoPrefixes : List Step := [.onWrite (ascii "a/") 1, .onWrite (ascii "b/") 2]

/-- What is written to the first device goes to the callback of the second. -/
theorem not_keeps_callback :
    ((passed twoPrefixes).map Prod.fst).Nodup ∧
      ¬KeepsCallback ⟨1, 0⟩ ((Setting.start 7 .initial).run ⟨1, 0⟩ twoPrefixes)
        (passed twoPrefixes) (TagValue.of (ascii "a/x") .null 0) := by
  refine ⟨by decide, ?_⟩
  intro keeps
  have longest : PassedLongest (passed twoPrefixes) (ascii "a/x") (ascii "a/", 1) :=
    ⟨by decide, by decide, by decide⟩
  have foreign : ∀ a ∈ twoPrefixes, Foreign ⟨1, 0⟩ 7 a := by
    simp [twoPrefixes, Foreign]
  have inv := (registered_start PluginHost.distinct_initial fresh_initial).run twoPrefixes foreign
  obtain ⟨-, -, -, held⟩ := own_of_invokes inv (keeps _ longest)
  cases held

end IrPlugin

end IndustrialRuntime.Irsp

import IndustrialRuntime.Core.WriteRoutes
import IndustrialRuntime.Server.WriteBack

namespace IndustrialRuntime.Irsp.Backend

open IndustrialRuntime.Core

variable {hash : Bytes → UInt64} {code : Handler → IrPluginWriteFn hash}

/-- A write that calls this one handler, with the context of its registration. -/
def Calls (code : Handler → IrPluginWriteFn hash) (tag : TagValue) (b : Backend hash)
    (reg : WriteReg) : Prop :=
  let r := code reg.handler reg.pluginCtx (PluginHost.toAbi tag)
    { b with host := b.host.addInflight reg.owner 1 }
  hostWrite code tag b =
    (decide r.1.Positive, { r.2 with host := r.2.host.addInflight reg.owner (-1) })

theorem hostWrite_unrouted {b : Backend hash} {tag : TagValue}
    (unrouted : b.host.select tag.name = none) : hostWrite code tag b = (false, b) := by
  simp only [hostWrite, unrouted]

theorem calls_of_select {b : Backend hash} {tag : TagValue} {reg : WriteReg}
    (selected : b.host.select tag.name = some reg) : Calls code tag b reg := by
  simp only [Calls, hostWrite, selected, call]
  rfl

/-- Where a write goes is what the map from prefixes says. -/
theorem hostWrite_routes (code : Handler → IrPluginWriteFn hash) {b : Backend hash}
    (distinct : b.host.Distinct) (tag : TagValue) :
    (b.host.routes.Unmatched tag.name ∧ hostWrite code tag b = (false, b)) ∨
      ∃ reg, b.host.routes.Longest tag.name reg ∧ Calls code tag b reg := by
  cases selected : b.host.select tag.name with
  | none => exact .inl ⟨PluginHost.unmatched_of_select selected, hostWrite_unrouted selected⟩
  | some reg =>
    have responsible := PluginHost.responsible_of_select selected
    exact .inr ⟨reg, PluginHost.longest_of_responsible distinct responsible,
      calls_of_select selected⟩

/-- After every history of calls: prefixes are distinct and the first registrant of one
keeps it, a retired owner loses what it has, a write calls the handler under the longest
prefix and no other, and the order of registrations does not matter to it. -/
theorem write_routing (calls : List PluginHost.Call) :
    let h := PluginHost.after calls
    h.Distinct ∧
      (∀ topicPrefix pluginCtx handler,
        (h.registerWriterThunk (some topicPrefix) pluginCtx (some handler)).routes =
          h.routes.add ⟨topicPrefix, pluginCtx, handler, h.registrant⟩) ∧
      (∀ owner, owner ≠ 0 → owner ∈ h.owners →
        (h.retireOwner owner).routes = h.routes.drop owner) ∧
      (∀ hash (code : Handler → IrPluginWriteFn hash) (b : Backend hash) (tag : TagValue),
        b.host = h →
          (h.routes.Unmatched tag.name ∧ hostWrite code tag b = (false, b)) ∨
            ∃ reg, h.routes.Longest tag.name reg ∧ Calls code tag b reg) ∧
      ∀ (regs regs' : List WriteReg) (later : List PluginHost.Call), regs.Perm regs' →
        (regs.map WriteReg.topicPrefix).Nodup → ∀ name,
          (later.foldl PluginHost.perform (regs.foldl PluginHost.registerAs h)).select name =
            (later.foldl PluginHost.perform (regs'.foldl PluginHost.registerAs h)).select name := by
  intro h
  have distinct : h.Distinct := PluginHost.distinct_after calls
  refine ⟨distinct, ?_, ?_, ?_, ?_⟩
  · intro topicPrefix pluginCtx handler
    exact PluginHost.routes_registerWriter h topicPrefix pluginCtx handler
  · intro owner nonzero known
    exact PluginHost.routes_retireOwner distinct nonzero known
  · intro hash code b tag same
    rw [← same] at distinct ⊢
    exact hostWrite_routes code distinct tag
  · intro regs regs' later reordered different name
    have permuted := (PluginHost.permuted_registrations reordered different h).foldl later
    apply permuted.select
    apply PluginHost.distinct_foldl
    exact PluginHost.distinct_foldl_registerAs distinct regs

/-- Two plugins register `a/` and `a/b/` in turn. -/
def registrations : List PluginHost.Call :=
  [.createOwner, .setActiveOwner 1, .registerWriter (some (ascii "a/")) 5 (some ⟨1, 0⟩),
    .createOwner, .setActiveOwner 2, .registerWriter (some (ascii "a/b/")) 6 (some ⟨2, 0⟩),
    .setActiveOwner 0]

/-- A write of `a/b/x` calls the second plugin until it is retired, and the first one then. -/
theorem write_routing_retired :
    let code : Handler → IrPluginWriteFn (fun _ => 0) := fun handler _ _ b =>
      (.returned (if handler.plugin = 1 then 1 else 0), b)
    let tag := TagValue.of (ascii "a/b/x") .null 0
    Calls code tag ⟨PluginHost.after registrations, .empty⟩ ⟨ascii "a/b/", 6, ⟨2, 0⟩, 2⟩ ∧
      Calls code tag ⟨PluginHost.after (registrations ++ [.retireOwner 2]), .empty⟩
        ⟨ascii "a/", 5, ⟨1, 0⟩, 1⟩ := by
  intro code tag
  have called (calls : List PluginHost.Call) (reg : WriteReg)
      (selected : (PluginHost.after calls).select tag.name = some reg) :
      Calls code tag ⟨PluginHost.after calls, .empty⟩ reg := by
    obtain ⟨distinct, -, -, routed, -⟩ := write_routing calls
    have responsible := PluginHost.responsible_of_select selected
    have route := PluginHost.longest_of_responsible distinct responsible
    obtain ⟨unmatched, -⟩ | ⟨other, longest, calls⟩ :=
      routed (fun _ => 0) code ⟨PluginHost.after calls, .empty⟩ tag rfl
    · have none := unmatched _ route.matching
      rw [route.live] at none
      cases none
    · rw [route.unique longest]
      exact calls
  exact ⟨called registrations _ (by decide), called (registrations ++ [.retireOwner 2]) _
    (by decide)⟩

end IndustrialRuntime.Irsp.Backend

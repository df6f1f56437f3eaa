import Mathlib.Data.Finset.Basic
import IndustrialRuntime.Core.Types

namespace IndustrialRuntime.Core

abbrev OwnerId := Nat

/-- A write handler: an entry point in the code of the plugin loaded as owner `plugin`. -/
structure Handler where
  plugin : OwnerId
  entry : Nat
  deriving DecidableEq, Repr

structure WriteReg where
  topicPrefix : Bytes
  pluginCtx : Nat
  handler : Handler
  owner : OwnerId
  deriving DecidableEq, Repr

/-- The write-back table of the host. An `OwnerState` is known by its owner, whose id is
never given out again; it counts one per live call, which an `int` holds. -/
structure PluginHost where
  writers : List WriteReg
  owners : Finset OwnerId
  inflight : OwnerId → Int
  activeOwner : OwnerId
  nextOwner : OwnerId

namespace PluginHost

/-- The host after its constructor. -/
def initial : PluginHost where
  writers := []
  owners := {0}
  inflight _ := 0
  activeOwner := 0
  nextOwner := 1

def createOwner (h : PluginHost) : OwnerId × PluginHost :=
  (h.nextOwner, { h with nextOwner := h.nextOwner + 1, owners := insert h.nextOwner h.owners })

def setActiveOwner (h : PluginHost) (owner : OwnerId) : PluginHost :=
  { h with activeOwner := owner }

def retireOwner (h : PluginHost) (owner : OwnerId) : PluginHost :=
  if owner = 0 then h
  else if owner ∉ h.owners then h
  else { h with writers := h.writers.filter (fun reg => reg.owner ≠ owner) }

def removeOwner (h : PluginHost) (owner : OwnerId) : PluginHost :=
  if owner = 0 then h else { h with owners := h.owners.erase owner }

/-- The owner that a registration made now is attributed to. -/
def registrant (h : PluginHost) : OwnerId :=
  if h.activeOwner ∈ h.owners then h.activeOwner else 0

/-- `registerWriterThunk` on non-null arguments. -/
def registerWriter (h : PluginHost) (topicPrefix : Bytes) (pluginCtx : Nat) (handler : Handler) :
    PluginHost :=
  if h.writers.any (fun reg => reg.topicPrefix == topicPrefix) then h
  else { h with writers := h.writers ++ [⟨topicPrefix, pluginCtx, handler, h.registrant⟩] }

/-- One iteration of the scan in `write`: the longest matching prefix so far. -/
def better (name : Bytes) (best : Option WriteReg) (reg : WriteReg) : Option WriteReg :=
  if reg.topicPrefix.isPrefixOf name then
    match best with
    | none => some reg
    | some b => if b.topicPrefix.length < reg.topicPrefix.length then some reg else some b
  else best

/-- The registration that `write` selects under the shared lock. -/
def select (h : PluginHost) (name : Bytes) : Option WriteReg :=
  h.writers.foldl (better name) none

def addInflight (h : PluginHost) (owner : OwnerId) (amount : Int) : PluginHost :=
  { h with inflight := Function.update h.inflight owner (h.inflight owner + amount) }

theorem better_eq_some (name : Bytes) (best : Option WriteReg) (reg found : WriteReg)
    (h : better name best reg = some found) : found = reg ∨ best = some found := by
  unfold better at h
  split at h
  · cases best with
    | none => exact .inl (Option.some.inj h).symm
    | some b =>
      simp only at h
      split at h
      · exact .inl (Option.some.inj h).symm
      · exact .inr h
  · exact .inr h

theorem foldl_better_mem (name : Bytes) (regs : List WriteReg) (best : Option WriteReg)
    (found : WriteReg) (h : regs.foldl (better name) best = some found) :
    found ∈ regs ∨ best = some found := by
  induction regs generalizing best with
  | nil => exact .inr h
  | cons reg regs ih =>
    rcases ih (better name best reg) h with later | now
    · exact .inl (List.mem_cons_of_mem reg later)
    · rcases better_eq_some name best reg found now with rfl | before
      · exact .inl List.mem_cons_self
      · exact .inr before

/-- What `write` selects is registered. -/
theorem mem_of_select (h : PluginHost) (name : Bytes) (reg : WriteReg)
    (selected : h.select name = some reg) : reg ∈ h.writers := by
  rcases foldl_better_mem name h.writers none reg selected with found | none
  · exact found
  · cases none

section Frame

variable (h : PluginHost) (owner : OwnerId)

@[simp] theorem createOwner_fst : h.createOwner.1 = h.nextOwner := rfl

@[simp] theorem createOwner_writers : h.createOwner.2.writers = h.writers := rfl

@[simp] theorem createOwner_inflight : h.createOwner.2.inflight = h.inflight := rfl

@[simp] theorem createOwner_owners :
    h.createOwner.2.owners = insert h.nextOwner h.owners := rfl

@[simp] theorem createOwner_nextOwner : h.createOwner.2.nextOwner = h.nextOwner + 1 := rfl

@[simp] theorem setActiveOwner_writers : (h.setActiveOwner owner).writers = h.writers := rfl

@[simp] theorem setActiveOwner_owners : (h.setActiveOwner owner).owners = h.owners := rfl

@[simp] theorem setActiveOwner_inflight : (h.setActiveOwner owner).inflight = h.inflight := rfl

@[simp] theorem setActiveOwner_activeOwner : (h.setActiveOwner owner).activeOwner = owner := rfl

@[simp] theorem setActiveOwner_nextOwner : (h.setActiveOwner owner).nextOwner = h.nextOwner := rfl

@[simp] theorem retireOwner_owners : (h.retireOwner owner).owners = h.owners := by
  unfold retireOwner
  split_ifs <;> rfl

@[simp] theorem retireOwner_activeOwner :
    (h.retireOwner owner).activeOwner = h.activeOwner := by
  unfold retireOwner
  split_ifs <;> rfl

@[simp] theorem retireOwner_inflight : (h.retireOwner owner).inflight = h.inflight := by
  unfold retireOwner
  split_ifs <;> rfl

@[simp] theorem retireOwner_nextOwner : (h.retireOwner owner).nextOwner = h.nextOwner := by
  unfold retireOwner
  split_ifs <;> rfl

theorem retireOwner_subset : (h.retireOwner owner).writers ⊆ h.writers := by
  unfold retireOwner
  split_ifs
  · exact List.Subset.refl _
  · exact List.filter_subset_self _
  · exact List.Subset.refl _

/-- A created owner keeps no registration. -/
theorem retireOwner_clears (nonzero : owner ≠ 0) (known : owner ∈ h.owners) (reg : WriteReg)
    (kept : reg ∈ (h.retireOwner owner).writers) : reg.owner ≠ owner := by
  simp only [retireOwner, nonzero, if_false, known, not_true_eq_false] at kept
  simpa using (List.mem_filter.mp kept).2

@[simp] theorem removeOwner_writers : (h.removeOwner owner).writers = h.writers := by
  unfold removeOwner
  split_ifs <;> rfl

@[simp] theorem removeOwner_activeOwner :
    (h.removeOwner owner).activeOwner = h.activeOwner := by
  unfold removeOwner
  split_ifs <;> rfl

@[simp] theorem removeOwner_inflight : (h.removeOwner owner).inflight = h.inflight := by
  unfold removeOwner
  split_ifs <;> rfl

@[simp] theorem removeOwner_nextOwner : (h.removeOwner owner).nextOwner = h.nextOwner := by
  unfold removeOwner
  split_ifs <;> rfl

theorem removeOwner_subset : (h.removeOwner owner).owners ⊆ h.owners := by
  unfold removeOwner
  split_ifs
  · exact Finset.Subset.refl _
  · exact Finset.erase_subset _ _

theorem mem_removeOwner (o : OwnerId) (other : o ≠ owner) (known : o ∈ h.owners) :
    o ∈ (h.removeOwner owner).owners := by
  unfold removeOwner
  split_ifs
  · exact known
  · exact Finset.mem_erase.mpr ⟨other, known⟩

variable (topicPrefix : Bytes) (pluginCtx : Nat) (handler : Handler)

@[simp] theorem registerWriter_owners :
    (h.registerWriter topicPrefix pluginCtx handler).owners = h.owners := by
  unfold registerWriter
  split_ifs <;> rfl

@[simp] theorem registerWriter_inflight :
    (h.registerWriter topicPrefix pluginCtx handler).inflight = h.inflight := by
  unfold registerWriter
  split_ifs <;> rfl

@[simp] theorem registerWriter_nextOwner :
    (h.registerWriter topicPrefix pluginCtx handler).nextOwner = h.nextOwner := by
  unfold registerWriter
  split_ifs <;> rfl

@[simp] theorem registerWriter_activeOwner :
    (h.registerWriter topicPrefix pluginCtx handler).activeOwner = h.activeOwner := by
  unfold registerWriter
  split_ifs <;> rfl

theorem mem_registerWriter (reg : WriteReg)
    (found : reg ∈ (h.registerWriter topicPrefix pluginCtx handler).writers) :
    reg ∈ h.writers ∨ reg = ⟨topicPrefix, pluginCtx, handler, h.registrant⟩ := by
  unfold registerWriter at found
  split_ifs at found
  · exact .inl found
  · simpa using found

@[simp] theorem addInflight_writers (amount : Int) :
    (h.addInflight owner amount).writers = h.writers := rfl

@[simp] theorem addInflight_self (amount : Int) :
    (h.addInflight owner amount).inflight owner = h.inflight owner + amount := by
  simp [addInflight]

theorem addInflight_ne (amount : Int) (o : OwnerId) (other : o ≠ owner) :
    (h.addInflight owner amount).inflight o = h.inflight o := by
  simp [addInflight, other]

end Frame

end PluginHost

end IndustrialRuntime.Core

import IndustrialRuntime.Admin.AdminCommand
import IndustrialRuntime.Lib.Chunks

namespace IndustrialRuntime.Admin

def kMaxRequest : Nat := 64 * 1024

/-- The condition on which the loop of `serve` ends. -/
def requestEnds (req : Bytes) : Bool := decide (newline ∈ req) || decide (kMaxRequest ≤ req.length)

/-- The request that `serve` reads from what one `read` after the other returns; after the last
chunk, `read` returns nothing or fails. -/
def readRequest (chunks : List Bytes) : Bytes := Chunks.fill requestEnds [] chunks

def firstLine (req : Bytes) : Bytes := req.takeWhile (· ≠ newline)

/-- One connection. -/
def serveOne {σ : Type*} (pm : Manager σ) (s : σ) (chunks : List Bytes) : Bytes × σ :=
  handleAdminCommand pm s (firstLine (readRequest chunks))

/-- The stream arrives in these chunks, which fit into `buf`. -/
def Arrives (stream : Bytes) (chunks : List Bytes) : Prop :=
  chunks.flatten = stream ∧ ∀ c ∈ chunks, c ≠ [] ∧ c.length ≤ 512

theorem firstLine_append {line : Bytes} (clean : newline ∉ line) (rest : Bytes) :
    firstLine (line ++ newline :: rest) = line := by
  have whole : ∀ c ∈ line, decide (c ≠ newline) = true := by
    intro c inside
    apply decide_eq_true
    intro same
    exact clean (same ▸ inside)
  rw [firstLine, List.takeWhile_append_of_pos whole]
  simp

theorem firstLine_self {line : Bytes} (clean : newline ∉ line) : firstLine line = line := by
  rw [firstLine, List.takeWhile_eq_self_iff]
  intro c inside
  apply decide_eq_true
  intro same
  exact clean (same ▸ inside)

/-- What is read of a stream: a part from its start, that has a line or reaches the limit. -/
theorem readRequest_prefix {stream : Bytes} {chunks : List Bytes}
    (arrives : Arrives stream chunks) :
    readRequest chunks <+: stream ∧
      (readRequest chunks = stream ∨ requestEnds (readRequest chunks) = true) := by
  obtain ⟨taken, left, split, read, last, -⟩ := Chunks.fill_split requestEnds []
    chunks fun c found => (arrives.2 c found).1
  have whole : taken.flatten ++ left.flatten = stream := by
    rw [← List.flatten_append, ← split]
    exact arrives.1
  rw [List.nil_append] at read last
  rw [readRequest, read]
  refine ⟨⟨left.flatten, whole⟩, last.imp_left fun none => ?_⟩
  rw [none, List.flatten_nil, List.append_nil] at whole
  exact whole

/-- A line within the limit is read whole. -/
theorem firstLine_readRequest {line rest : Bytes} (clean : newline ∉ line)
    (short : line.length ≤ kMaxRequest) {chunks : List Bytes}
    (arrives : Arrives (line ++ newline :: rest) chunks) :
    firstLine (readRequest chunks) = line := by
  obtain ⟨start, stop⟩ := readRequest_prefix arrives
  have lineStart : line <+: line ++ newline :: rest := List.prefix_append _ _
  by_cases ended : newline ∈ readRequest chunks
  · obtain ⟨before, after, split, clean'⟩ := List.eq_append_cons_of_mem ended
    obtain ⟨more, same⟩ := start
    rw [split] at same ⊢
    rw [firstLine_append clean']
    have left := firstLine_append clean' (after ++ more)
    have right := firstLine_append clean rest
    rw [← same, List.append_assoc, List.cons_append, left] at right
    exact right
  · have full : kMaxRequest ≤ (readRequest chunks).length := by
      rcases stop with all | reached
      · rw [all] at ended
        exact absurd (by simp) ended
      · simpa [requestEnds, ended] using reached
    have inside : readRequest chunks <+: line := by
      rcases List.prefix_or_prefix_of_prefix start lineStart with inside | ⟨more, same⟩
      · exact inside
      · cases more with
        | nil => rw [← same, List.append_nil]
        | cons c more =>
          obtain ⟨others, whole⟩ := start
          rw [← same, List.append_assoc, List.cons_append] at whole
          have head := List.append_cancel_left whole
          injection head with isNewline
          rw [← same, isNewline] at ended
          exact absurd (by simp) ended
    have all : readRequest chunks = line := inside.eq_of_length (by
      have bound := inside.length_le
      omega)
    rw [all, firstLine_self clean]

/-- Byte by byte, no more than the limit is read. -/
theorem length_firstLine_bytes (stream : Bytes) :
    (firstLine (readRequest (stream.map fun c => [c]))).length ≤ kMaxRequest := by
  obtain ⟨taken, left, split, read, last, first⟩ := Chunks.fill_split requestEnds []
    (stream.map fun c => [c]) (by
      intro c found
      obtain ⟨b, -, rfl⟩ := List.mem_map.mp found
      exact List.cons_ne_nil b [])
  have short : (firstLine (readRequest (stream.map fun c => [c]))).length ≤
      taken.flatten.length := by
    rw [readRequest, read, List.nil_append]
    exact (List.takeWhile_prefix _).length_le
  have singles (l : List Bytes) (part : l ⊆ stream.map fun c => [c]) :
      l.flatten.length = l.length := by
    induction l with
    | nil => rfl
    | cons c l ih =>
      obtain ⟨b, -, rfl⟩ := List.mem_map.mp (part List.mem_cons_self)
      have later := ih fun d later => part (List.mem_cons_of_mem _ later)
      simp only [List.flatten_cons, List.length_append, List.length_cons, List.length_nil]
      omega
  have part : taken ⊆ stream.map fun c => [c] := by
    rw [split]
    exact List.subset_append_left taken left
  rw [singles taken part] at short
  refine short.trans ?_
  by_contra more
  have long' : kMaxRequest < taken.length := by omega
  have cut : taken =
      taken.take kMaxRequest ++ taken[kMaxRequest] :: taken.drop (kMaxRequest + 1) := by
    rw [← List.drop_eq_getElem_cons long', List.take_append_drop]
  have open_ := first _ _ _ cut
  have full : (taken.take kMaxRequest).flatten.length = kMaxRequest := by
    rw [singles _ fun c found => part (List.mem_of_mem_take found), List.length_take]
    omega
  simp [requestEnds, full] at open_

/-- A command line is read as it was sent, in whatever chunks it arrives, if and only if it is no
longer than the limit. -/
theorem line_read_iff (line rest : Bytes) :
    (∀ chunks, Arrives (line ++ newline :: rest) chunks →
      firstLine (readRequest chunks) = line) ↔ newline ∉ line ∧ line.length ≤ kMaxRequest := by
  have singles : Arrives (line ++ newline :: rest)
      ((line ++ newline :: rest).map fun c => [c]) := by
    refine ⟨by rw [← List.flatMap_def, List.flatMap_singleton'], fun c found => ?_⟩
    obtain ⟨b, -, rfl⟩ := List.mem_map.mp found
    exact ⟨List.cons_ne_nil b [], by simp⟩
  constructor
  · intro read
    have same := read _ singles
    have clean : newline ∉ line := by
      intro inside
      rw [← same, firstLine] at inside
      simpa using List.mem_takeWhile_imp inside
    refine ⟨clean, ?_⟩
    by_contra long
    have short := length_firstLine_bytes (line ++ newline :: rest)
    rw [same] at short
    exact long short
  · rintro ⟨clean, short⟩ chunks arrives
    exact firstLine_readRequest clean short arrives

end IndustrialRuntime.Admin

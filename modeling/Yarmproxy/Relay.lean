import Yarmproxy.Command

/-! # A buffer that relays a byte stream

`Relay source position forwarded b` relates a read buffer to the stream that passes through
it: the bytes that have arrived for forwarding, how far they are parsed, and what has been
handed on. Every operation of the buffer changes one of the three. -/
namespace Yarmproxy

structure Relay (source : Bytes) (position : ℕ) (forwarded : Bytes) (b : ReadBuffer) : Prop where
  valid : b.Valid
  bytes : forwarded ++ b.queued = source
  parsed : forwarded.length + b.ahead = position

namespace Relay

variable {ε : Type} {source forwarded : Bytes} {position n : ℕ} {b : ReadBuffer}

theorem length_queued (h : Relay source position forwarded b) :
    forwarded.length + b.queued.length = source.length := by
  rw [← h.bytes, List.length_append]

theorem unprocessedBytes (h : Relay source position forwarded b) :
    b.unprocessedBytes = min source.length position - forwarded.length := by
  have hq := h.length_queued
  have hp := h.parsed
  rw [ReadBuffer.unprocessedBytes_eq h.valid]
  omega

theorem unparsedBytes (h : Relay source position forwarded b) :
    b.unparsedBytes = source.length - position := by
  have hq := h.length_queued
  have hp := h.parsed
  rw [ReadBuffer.unparsedBytes_eq h.valid]
  omega

theorem parsedUnreceivedBytes (h : Relay source position forwarded b) :
    b.parsedUnreceivedBytes = position - source.length := by
  have hq := h.length_queued
  have hp := h.parsed
  rw [ReadBuffer.parsedUnreceivedBytes_eq h.valid]
  omega

theorem length_source (h : Relay source position forwarded b) :
    source.length ≤ forwarded.length + 2 ^ 20 := by
  have hq := h.length_queued
  have := ReadBuffer.queued_length h.valid
  have := h.valid.received_size
  have := h.valid.size_bound
  omega

theorem unparsedBytes_le (h : Relay source position forwarded b) : b.unparsedBytes ≤ 2 ^ 20 := by
  have hs := h.length_source
  have hp := h.parsed
  rw [h.unparsedBytes]
  omega

/-- The memory behind the parsed offset starts with the unparsed bytes. -/
theorem unparsedData (h : Relay source position forwarded b) (hp : position ≤ source.length) :
    b.unparsedData.rest.take (source.length - position) = source.drop position ∧
      source.length - position ≤ b.unparsedData.rest.length := by
  have hq := h.length_queued
  have hpos := h.parsed
  have hd := ReadBuffer.unparsedData_bytes h.valid
    (show b.ahead + (source.length - position) ≤ b.queued.length by omega)
  have hr := ReadBuffer.unparsedData_rest_length h.valid
  refine ⟨?_, by omega⟩
  have hs : source.drop position = b.queued.drop b.ahead := by
    rw [← h.bytes, ← hpos, List.drop_append]
    simp
  rw [Ptr.bytes] at hd
  rw [hd, hs, List.take_of_length_le]
  rw [List.length_drop]
  omega

theorem incRecycleLock (h : Relay source position forwarded b) :
    Relay source position forwarded b.incRecycleLock :=
  ⟨ReadBuffer.incRecycleLock_valid h.valid, h.bytes, h.parsed⟩

theorem decRecycleLock (h : Relay source position forwarded b) :
    Relay source position forwarded b.decRecycleLock := by
  refine ⟨ReadBuffer.decRecycleLock_valid h.valid, ?_, ?_⟩
  · rw [ReadBuffer.queued_decRecycleLock h.valid]
    exact h.bytes
  · rw [ReadBuffer.ahead_decRecycleLock h.valid]
    exact h.parsed

theorem receive {chunk : Bytes} (h : Relay source position forwarded b)
    (hc : chunk.length ≤ b.freeSpaceSize) :
    Relay (source ++ chunk) position forwarded (b.receive chunk) := by
  refine ⟨ReadBuffer.receive_valid h.valid hc, ?_, h.parsed⟩
  rw [ReadBuffer.queued_receive h.valid hc, ← List.append_assoc, h.bytes]

theorem updateParsedBytes (h : Relay source position forwarded b)
    (hn : position + n < 2 ^ 63 + forwarded.length) :
    Relay source (position + n) forwarded (b.updateParsedBytes n) := by
  have hb : b.parsedOffset + n < 2 ^ 64 := by
    have := ReadBuffer.parsedOffset_le h.valid
    have := h.parsed
    omega
  refine ⟨ReadBuffer.updateParsedBytes_valid h.valid hb, h.bytes, ?_⟩
  rw [ReadBuffer.ahead_updateParsedBytes h.valid hb, ← Nat.add_assoc, h.parsed]

theorem cutReceivedTail (h : Relay source position forwarded b)
    (hn : n ≤ source.length - forwarded.length) :
    Relay (source.take (source.length - n)) position forwarded (b.cutReceivedTail n) := by
  have hq := h.length_queued
  have hle : n ≤ b.queued.length := by omega
  refine ⟨ReadBuffer.cutReceivedTail_valid h.valid hle, ?_, h.parsed⟩
  have hlen : source.length - n = forwarded.length + (b.queued.length - n) := by omega
  rw [ReadBuffer.queued_cutReceivedTail h.valid hle, hlen, ← h.bytes, List.take_length_add_append]

theorem updateProcessedOffset (h : Relay source position forwarded b)
    (hn : n ≤ b.queued.length) (ha : n ≤ b.ahead) :
    Relay source position (forwarded ++ b.queued.take n) (b.updateProcessedOffset n) := by
  refine ⟨ReadBuffer.updateProcessedOffset_valid h.valid hn ha, ?_, ?_⟩
  · rw [ReadBuffer.queued_updateProcessedOffset h.valid hn, List.append_assoc,
      List.take_append_drop, h.bytes]
  · have := h.parsed
    rw [ReadBuffer.ahead_updateProcessedOffset h.valid hn, List.length_append, List.length_take]
    omega

theorem updateProcessedBytes (h : Relay source position forwarded b)
    (hn : n ≤ b.queued.length) (ha : n ≤ b.ahead) :
    Relay source position (forwarded ++ b.queued.take n) (b.updateProcessedBytes n) := by
  refine ⟨ReadBuffer.updateProcessedBytes_valid h.valid hn ha, ?_, ?_⟩
  · rw [ReadBuffer.queued_updateProcessedBytes h.valid hn ha, List.append_assoc,
      List.take_append_drop, h.bytes]
  · have := h.parsed
    rw [ReadBuffer.ahead_updateProcessedBytes h.valid hn ha, List.length_append, List.length_take]
    omega

/-- `SetReplyData` starts a new stream. -/
theorem setReplyData {data : Bytes} (hv : b.Valid) (hd : data.length ≤ b.bufferSize)
    (parsed : Bool) :
    Relay data (if parsed then data.length else 0) [] (b.reset.pushReplyData data parsed) := by
  refine ⟨ReadBuffer.pushReplyData_reset_valid hv hd parsed, ?_, ?_⟩
  · rw [ReadBuffer.queued_pushReplyData_reset hv hd parsed, List.nil_append]
  · rw [ReadBuffer.ahead_pushReplyData_reset hv hd parsed]
    simp

theorem replyRead {c : BackendConn ε} {chunk : Bytes}
    (h : Relay source position forwarded c.buffer)
    (hc : chunk.length ≤ c.buffer.freeSpaceSize) :
    Relay (source ++ chunk) position forwarded (c.handle (.replyRead chunk)).1.buffer :=
  (h.receive hc).decRecycleLock

/-- `TryWriteReply` does nothing, or hands on everything that has arrived and is parsed. -/
theorem tryWriteReply {c : BackendConn ε} (h : Relay source position forwarded c.buffer)
    (i : ℕ) (r : ReplyState) :
    (Yarmproxy.tryWriteReply i c r = (c, r, []) ∧
      (r.isWriting = true ∨ min source.length position ≤ forwarded.length)) ∨
    (r.isWriting = false ∧ ∃ data buffer, data ≠ [] ∧
      Yarmproxy.tryWriteReply i c r =
        ({ c with buffer := buffer }, ⟨true, true⟩, [.writeReply data (some i)]) ∧
      Relay source position (forwarded ++ data) buffer ∧
      buffer.bufferSize = c.buffer.bufferSize) := by
  by_cases hs : r.isWriting = true ∨ c.buffer.unprocessedBytes = 0
  · refine Or.inl ⟨tryWriteReply_skip hs, hs.imp id fun hz => ?_⟩
    rw [h.unprocessedBytes] at hz
    omega
  · rw [not_or, Bool.not_eq_true, ReadBuffer.unprocessedBytes_eq h.valid] at hs
    have hn : 0 < min c.buffer.queued.length c.buffer.ahead := Nat.pos_of_ne_zero hs.2
    refine Or.inr ⟨hs.1, _, _, ?_, tryWriteReply_write h.valid hs.1 hn,
      h.incRecycleLock.updateProcessedBytes (Nat.min_le_left _ _) (Nat.min_le_right _ _), by simp⟩
    rw [← List.length_pos_iff, List.length_take]
    omega

/-- `TryWriteReply` when there is something to write and no write is in flight. -/
theorem tryWriteReply_some {c : BackendConn ε} (h : Relay source position forwarded c.buffer)
    (i : ℕ) {r : ReplyState} (hr : r.isWriting = false) (hn : 0 < c.buffer.unprocessedBytes) :
    ∃ data buffer, data ≠ [] ∧ Yarmproxy.tryWriteReply i c r =
        ({ c with buffer := buffer }, ⟨true, true⟩, [.writeReply data (some i)]) ∧
      Relay source position (forwarded ++ data) buffer ∧
      buffer.bufferSize = c.buffer.bufferSize ∧
      buffer.recycleLockCount = c.buffer.recycleLockCount + 1 ∧ buffer.unprocessedBytes = 0 := by
  rw [ReadBuffer.unprocessedBytes_eq h.valid] at hn
  have hrelay := h.incRecycleLock.updateProcessedBytes
    (n := min c.buffer.queued.length c.buffer.ahead) (Nat.min_le_left _ _) (Nat.min_le_right _ _)
  refine ⟨_, _, ?_, tryWriteReply_write h.valid hr hn, hrelay, by simp,
    ReadBuffer.recycleLockCount_tryRecycleBuffer, ?_⟩
  · rw [← List.length_pos_iff, List.length_take]
    omega
  · have hq := h.length_queued
    have hp := h.parsed
    rw [hrelay.unprocessedBytes, List.length_append, List.length_take,
      ReadBuffer.queued_incRecycleLock]
    omega

theorem finished {c : BackendConn ε} (h : Relay source position forwarded c.buffer)
    (hc : c.finished = true) :
    c.replyRecvComplete = true ∧ min source.length position ≤ forwarded.length := by
  simp only [BackendConn.finished, Bool.and_eq_true, beq_iff_eq, h.unprocessedBytes] at hc
  exact ⟨hc.1, by omega⟩

end Relay
end Yarmproxy

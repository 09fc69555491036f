import Yarmproxy.Cpp
import Mathlib.Data.List.Basic
import Mathlib.Tactic.Common

/-! # The read buffer

`ReadBuffer` is the memory with its four counters as the source keeps it. The queue view
(`queued`, `ahead`) is what the callers rely on: the bytes received and not yet processed,
and how far parsing has run past the processed offset, possibly past the received bytes. -/
namespace Yarmproxy

/-- A `const char*` into one allocation. -/
structure Ptr where
  mem : Bytes
  off : ℕ
  deriving DecidableEq, Repr

/-- The memory from the pointer to the end of its allocation. -/
def Ptr.rest (p : Ptr) : Bytes := p.mem.drop p.off

def Ptr.bytes (p : Ptr) (n : ℕ) : Bytes := p.rest.take n

/-- `p + n` for a `size_t` operand; `none` when the sum lies before the allocation. -/
def Ptr.add (p : Ptr) (n : ℕ) : Option Ptr :=
  if n < 2 ^ 63 then some ⟨p.mem, p.off + n⟩
  else if 2 ^ 64 - n ≤ p.off then some ⟨p.mem, p.off - (2 ^ 64 - n)⟩
  else none

/-- The values of `buffer_size` that the configuration accepts: 1 KB to 1 MB, doubling. -/
def AcceptedBufferSize (n : ℕ) : Prop := ∃ k ≤ 10, n = 1024 * 2 ^ k

theorem AcceptedBufferSize.bounds {n : ℕ} (h : AcceptedBufferSize n) :
    1024 ≤ n ∧ n ≤ 2 ^ 20 := by
  obtain ⟨k, hk, rfl⟩ := h
  have h₁ : 1 ≤ 2 ^ k := Nat.one_le_two_pow
  have h₂ : 2 ^ k ≤ 2 ^ 10 := Nat.pow_le_pow_right (by decide) hk
  omega

structure ReadBuffer where
  data : Bytes
  bufferSize : ℕ
  processedOffset : ℕ
  receivedOffset : ℕ
  parsedOffset : ℕ
  recycleLockCount : ℕ
  deriving DecidableEq, Repr

namespace ReadBuffer

def new (data : Bytes) : ReadBuffer := ⟨data, data.length, 0, 0, 0, 0⟩

def reset (b : ReadBuffer) : ReadBuffer :=
  { b with processedOffset := 0, receivedOffset := 0, parsedOffset := 0, recycleLockCount := 0 }

def hasMuchFreeSpace (b : ReadBuffer) : Bool := b.receivedOffset * 3 < b.bufferSize * 2

def freeSpaceSize (b : ReadBuffer) : ℕ := subSize b.bufferSize b.receivedOffset

def receivedBytes (b : ReadBuffer) : ℕ := subSize b.receivedOffset b.processedOffset

def cutReceivedTail (b : ReadBuffer) (n : ℕ) : ReadBuffer :=
  { b with receivedOffset := subSize b.receivedOffset n }

def recycleLocked (b : ReadBuffer) : Bool := 0 < b.recycleLockCount

def incRecycleLock (b : ReadBuffer) : ReadBuffer :=
  { b with recycleLockCount := b.recycleLockCount + 1 }

/-- The memmove leaves the bytes behind the moved block where they were. -/
def tryRecycleBuffer (b : ReadBuffer) : ReadBuffer :=
  if b.recycleLockCount = 0 then
    if b.processedOffset = b.receivedOffset then
      { b with
        parsedOffset := subSize b.parsedOffset b.processedOffset
        processedOffset := 0
        receivedOffset := 0 }
    else if b.processedOffset > subSize b.bufferSize b.receivedOffset then
      let n := subSize b.receivedOffset b.processedOffset
      { b with
        data := (b.data.drop b.processedOffset).take n ++ b.data.drop n
        parsedOffset := subSize b.parsedOffset b.processedOffset
        receivedOffset := n
        processedOffset := 0 }
    else b
  else b

def decRecycleLock (b : ReadBuffer) : ReadBuffer :=
  tryRecycleBuffer { b with recycleLockCount := b.recycleLockCount - 1 }

def unprocessedData (b : ReadBuffer) : Ptr := ⟨b.data, b.processedOffset⟩

def unprocessedBytes (b : ReadBuffer) : ℕ :=
  subSize (min b.receivedOffset b.parsedOffset) b.processedOffset

def updateProcessedOffset (b : ReadBuffer) (n : ℕ) : ReadBuffer :=
  { b with processedOffset := addSize b.processedOffset n }

def updateProcessedBytes (b : ReadBuffer) (n : ℕ) : ReadBuffer :=
  tryRecycleBuffer (b.updateProcessedOffset n)

/-- A read that put `chunk` at `free_space_begin()`, then `update_received_bytes`. -/
def receive (b : ReadBuffer) (chunk : Bytes) : ReadBuffer :=
  { b with
    data := b.data.take b.receivedOffset ++ chunk ++
      b.data.drop (b.receivedOffset + chunk.length)
    receivedOffset := addSize b.receivedOffset chunk.length }

def pushReplyData (b : ReadBuffer) (bytes : Bytes) (parsed : Bool) : ReadBuffer :=
  { b with
    data := bytes ++ b.data.drop bytes.length
    receivedOffset := addSize b.receivedOffset bytes.length
    parsedOffset := if parsed then addSize b.parsedOffset bytes.length else b.parsedOffset }

def updateParsedBytes (b : ReadBuffer) (n : ℕ) : ReadBuffer :=
  { b with parsedOffset := addSize b.parsedOffset n }

def unparsedData (b : ReadBuffer) : Ptr := ⟨b.data, b.parsedOffset⟩

def unparsedBytes (b : ReadBuffer) : ℕ := b.receivedOffset - b.parsedOffset

def parsedUnprocessedBytes (b : ReadBuffer) : ℕ := b.parsedOffset - b.processedOffset

def parsedUnreceivedBytes (b : ReadBuffer) : ℕ := b.parsedOffset - b.receivedOffset

def unparsedReceivedBytes (b : ReadBuffer) : ℕ := b.receivedOffset - b.parsedOffset

/-- The queue contents: received and not yet processed. -/
def queued (b : ReadBuffer) : Bytes :=
  (b.data.drop b.processedOffset).take (b.receivedOffset - b.processedOffset)

/-- The bytes in front of the processed offset. -/
def passed (b : ReadBuffer) : Bytes := b.data.take b.processedOffset

/-- How far the parsed offset is in front of the processed one. -/
def ahead (b : ReadBuffer) : ℕ := b.parsedOffset - b.processedOffset

/-- The offsets are in order, in a memory of at most `cap` bytes. -/
structure Within (cap : ℕ) (b : ReadBuffer) : Prop where
  memory : b.data.length = b.bufferSize
  size_bound : b.bufferSize ≤ cap
  size_lt : b.bufferSize < 2 ^ 64
  processed_received : b.processedOffset ≤ b.receivedOffset
  received_size : b.receivedOffset ≤ b.bufferSize
  processed_parsed : b.processedOffset ≤ b.parsedOffset
  parsed_bound : b.parsedOffset < 2 ^ 64

/-- With a buffer of an accepted size. -/
abbrev Valid (b : ReadBuffer) : Prop := b.Within (2 ^ 20)

variable {b : ReadBuffer} {n cap : ℕ} {chunk : Bytes}

theorem new_within {data : Bytes} (h : data.length < 2 ^ 64) : (new data).Within data.length :=
  ⟨rfl, le_rfl, h, le_rfl, Nat.zero_le _, le_rfl, by simp [new]⟩

theorem new_valid {data : Bytes} (h : data.length ≤ 2 ^ 20) : (new data).Valid :=
  ⟨rfl, h, by simp only [new]; omega, le_rfl, Nat.zero_le _, le_rfl, by simp [new]⟩

theorem queued_length (h : b.Within cap) :
    b.queued.length = b.receivedOffset - b.processedOffset := by
  have := h.memory
  have := h.received_size
  simp only [queued, List.length_take, List.length_drop]
  omega

theorem freeSpaceSize_eq (h : b.Within cap) : b.freeSpaceSize = b.bufferSize - b.receivedOffset :=
  subSize_eq h.received_size (by have := h.size_lt; omega)

theorem receivedBytes_eq (h : b.Within cap) : b.receivedBytes = b.queued.length := by
  rw [queued_length h]
  exact subSize_eq h.processed_received (by have := h.size_lt; have := h.received_size; omega)

theorem unprocessedBytes_eq (h : b.Within cap) :
    b.unprocessedBytes = min b.queued.length b.ahead := by
  have := h.processed_received
  have := h.processed_parsed
  have := h.received_size
  have := h.size_lt
  rw [queued_length h, unprocessedBytes, subSize_eq (by omega) (by omega), ahead]
  omega

theorem unparsedBytes_eq (h : b.Within cap) : b.unparsedBytes = b.queued.length - b.ahead := by
  have := h.processed_received
  have := h.processed_parsed
  rw [queued_length h, unparsedBytes, ahead]
  omega

theorem unparsedReceivedBytes_eq (h : b.Within cap) :
    b.unparsedReceivedBytes = b.queued.length - b.ahead := unparsedBytes_eq h

theorem parsedUnprocessedBytes_eq : b.parsedUnprocessedBytes = b.ahead := rfl

theorem parsedUnreceivedBytes_eq (h : b.Within cap) :
    b.parsedUnreceivedBytes = b.ahead - b.queued.length := by
  have := h.processed_received
  have := h.processed_parsed
  rw [queued_length h, parsedUnreceivedBytes, ahead]
  omega

/-- The bytes behind a pointer at the processed offset start with the queue. -/
theorem unprocessedData_bytes (h : b.Within cap) (hn : n ≤ b.queued.length) :
    b.unprocessedData.bytes n = b.queued.take n := by
  rw [queued_length h] at hn
  simp [unprocessedData, Ptr.bytes, Ptr.rest, queued, List.take_take, Nat.min_eq_left hn]

theorem unparsedData_bytes (h : b.Within cap) (hn : b.ahead + n ≤ b.queued.length) :
    b.unparsedData.bytes n = (b.queued.drop b.ahead).take n := by
  have hp := h.processed_parsed
  rw [queued_length h] at hn
  have ho : b.parsedOffset = b.processedOffset + b.ahead := by unfold ahead; omega
  simp only [unparsedData, Ptr.bytes, Ptr.rest, queued, List.drop_take, List.drop_drop,
    List.take_take, ho]
  congr 1
  omega

theorem unparsedData_rest_length (h : b.Within cap) :
    b.queued.length - b.ahead ≤ b.unparsedData.rest.length := by
  have := h.processed_parsed
  have := h.memory
  have := h.received_size
  rw [queued_length h]
  simp only [unparsedData, Ptr.rest, List.length_drop, ahead]
  omega

theorem receive_valid (h : b.Within cap) (hc : chunk.length ≤ b.freeSpaceSize) :
    (b.receive chunk).Within cap := by
  rw [freeSpaceSize_eq h] at hc
  have hm := h.memory
  have hs := h.size_lt
  have hr := h.received_size
  have ha : addSize b.receivedOffset chunk.length = b.receivedOffset + chunk.length :=
    addSize_eq (by omega)
  refine ⟨?_, h.size_bound, hs, ?_, ?_, h.processed_parsed, h.parsed_bound⟩
  · simp only [receive, List.length_append, List.length_take, List.length_drop]
    omega
  · have := h.processed_received
    simp only [receive, ha]
    omega
  · simp only [receive, ha]
    omega

theorem queued_receive (h : b.Within cap) (hc : chunk.length ≤ b.freeSpaceSize) :
    (b.receive chunk).queued = b.queued ++ chunk := by
  rw [freeSpaceSize_eq h] at hc
  have hm := h.memory
  have hs := h.size_lt
  have hr := h.received_size
  have hp := h.processed_received
  have ha : addSize b.receivedOffset chunk.length = b.receivedOffset + chunk.length :=
    addSize_eq (by omega)
  have hd : b.processedOffset ≤ (b.data.take b.receivedOffset ++ chunk).length := by
    simp only [List.length_append, List.length_take]
    omega
  have ht : b.processedOffset ≤ (b.data.take b.receivedOffset).length := by
    simp only [List.length_take]
    omega
  simp only [queued, receive, ha]
  rw [List.drop_append_of_le_length hd, List.drop_append_of_le_length ht,
    List.take_append_of_le_length, List.take_append, List.drop_take]
  · simp only [List.length_drop, List.length_take, List.take_take]
    congr 1
    · congr 1
      omega
    · exact List.take_of_length_le (by omega)
  · simp only [List.length_append, List.length_drop, List.length_take]
    omega

@[simp] theorem ahead_receive : (b.receive chunk).ahead = b.ahead := rfl

theorem incRecycleLock_valid (h : b.Within cap) : b.incRecycleLock.Within cap :=
  ⟨h.memory, h.size_bound, h.size_lt, h.processed_received, h.received_size, h.processed_parsed,
    h.parsed_bound⟩

@[simp] theorem queued_incRecycleLock : b.incRecycleLock.queued = b.queued := rfl
@[simp] theorem ahead_incRecycleLock : b.incRecycleLock.ahead = b.ahead := rfl

/-- The offsets in which recycling may happen, with the `size_t` differences resolved. -/
theorem tryRecycleBuffer_cases (h : b.Within cap) :
    b.tryRecycleBuffer = b ∨
    (b.recycleLockCount = 0 ∧ b.processedOffset = b.receivedOffset ∧
      b.tryRecycleBuffer = { b with
        parsedOffset := b.parsedOffset - b.processedOffset
        processedOffset := 0
        receivedOffset := 0 }) ∨
    (b.recycleLockCount = 0 ∧ b.bufferSize < b.processedOffset + b.receivedOffset ∧
      b.tryRecycleBuffer = { b with
        data := b.queued ++ b.data.drop (b.receivedOffset - b.processedOffset)
        parsedOffset := b.parsedOffset - b.processedOffset
        receivedOffset := b.receivedOffset - b.processedOffset
        processedOffset := 0 }) := by
  have hs := h.size_lt
  have hr := h.received_size
  have hp := h.processed_received
  have e₁ := subSize_eq h.processed_parsed h.parsed_bound
  have e₂ := subSize_eq hp (by omega)
  have e₃ := subSize_eq hr (by omega)
  by_cases hl : b.recycleLockCount = 0
  · by_cases he : b.processedOffset = b.receivedOffset
    · refine Or.inr (Or.inl ⟨hl, he, ?_⟩)
      rw [tryRecycleBuffer, if_pos hl, if_pos he, e₁]
    · by_cases hg : b.processedOffset > b.bufferSize - b.receivedOffset
      · refine Or.inr (Or.inr ⟨hl, by omega, ?_⟩)
        rw [tryRecycleBuffer, if_pos hl, if_neg he, e₃, if_pos hg, e₁, e₂]
        rfl
      · left
        rw [tryRecycleBuffer, if_pos hl, if_neg he, e₃, if_neg hg]
  · left
    rw [tryRecycleBuffer, if_neg hl]

theorem tryRecycleBuffer_valid (h : b.Within cap) : b.tryRecycleBuffer.Within cap := by
  have hm := h.memory
  have hs := h.size_lt
  have hr := h.received_size
  have hp := h.processed_received
  have hb := h.parsed_bound
  rcases tryRecycleBuffer_cases h with e | ⟨_, he, e⟩ | ⟨_, hg, e⟩
  · rw [e]; exact h
  · rw [e]
    refine ⟨hm, h.size_bound, hs, le_rfl, Nat.zero_le _, Nat.zero_le _, ?_⟩
    dsimp only
    omega
  · rw [e]
    refine ⟨?_, h.size_bound, hs, Nat.zero_le _, ?_, Nat.zero_le _, ?_⟩
    · simp only [List.length_append, List.length_drop, queued_length h]
      omega
    · dsimp only
      omega
    · dsimp only
      omega

@[simp] theorem queued_tryRecycleBuffer (h : b.Within cap) :
    b.tryRecycleBuffer.queued = b.queued := by
  rcases tryRecycleBuffer_cases h with e | ⟨_, he, e⟩ | ⟨_, hg, e⟩
  · rw [e]
  · rw [e]
    simp [queued, he]
  · rw [e]
    have hq := queued_length h
    simp only [queued] at hq ⊢
    simp only [List.drop_zero, Nat.sub_zero]
    rw [List.take_append_of_le_length (by omega), List.take_of_length_le (by omega)]

@[simp] theorem ahead_tryRecycleBuffer (h : b.Within cap) : b.tryRecycleBuffer.ahead = b.ahead := by
  rcases tryRecycleBuffer_cases h with e | ⟨_, he, e⟩ | ⟨_, hg, e⟩ <;> rw [e] <;> simp [ahead]

@[simp] theorem bufferSize_tryRecycleBuffer : b.tryRecycleBuffer.bufferSize = b.bufferSize := by
  unfold tryRecycleBuffer
  split
  · split
    · rfl
    · split <;> rfl
  · rfl

@[simp] theorem bufferSize_decRecycleLock : b.decRecycleLock.bufferSize = b.bufferSize :=
  bufferSize_tryRecycleBuffer

@[simp] theorem bufferSize_incRecycleLock : b.incRecycleLock.bufferSize = b.bufferSize := rfl

@[simp] theorem bufferSize_updateProcessedBytes :
    (b.updateProcessedBytes n).bufferSize = b.bufferSize := bufferSize_tryRecycleBuffer

@[simp] theorem bufferSize_updateParsedBytes :
    (b.updateParsedBytes n).bufferSize = b.bufferSize := rfl

@[simp] theorem bufferSize_cutReceivedTail : (b.cutReceivedTail n).bufferSize = b.bufferSize := rfl

@[simp] theorem bufferSize_receive : (b.receive chunk).bufferSize = b.bufferSize := rfl

theorem decRecycleLock_valid (h : b.Within cap) : b.decRecycleLock.Within cap :=
  tryRecycleBuffer_valid ⟨h.memory, h.size_bound, h.size_lt, h.processed_received, h.received_size,
    h.processed_parsed, h.parsed_bound⟩

@[simp] theorem queued_decRecycleLock (h : b.Within cap) : b.decRecycleLock.queued = b.queued :=
  queued_tryRecycleBuffer (b := { b with recycleLockCount := b.recycleLockCount - 1 })
    ⟨h.memory, h.size_bound, h.size_lt, h.processed_received, h.received_size, h.processed_parsed,
      h.parsed_bound⟩

@[simp] theorem ahead_decRecycleLock (h : b.Within cap) : b.decRecycleLock.ahead = b.ahead :=
  ahead_tryRecycleBuffer (b := { b with recycleLockCount := b.recycleLockCount - 1 })
    ⟨h.memory, h.size_bound, h.size_lt, h.processed_received, h.received_size, h.processed_parsed,
      h.parsed_bound⟩

theorem updateProcessedOffset_eq (h : b.Within cap) (hn : n ≤ b.queued.length) :
    b.updateProcessedOffset n = { b with processedOffset := b.processedOffset + n } := by
  have := h.processed_received
  have := h.size_lt
  have := h.received_size
  rw [queued_length h] at hn
  rw [updateProcessedOffset, addSize_eq (by omega)]

theorem updateProcessedOffset_valid (h : b.Within cap) (hn : n ≤ b.queued.length)
    (ha : n ≤ b.ahead) : (b.updateProcessedOffset n).Within cap := by
  rw [updateProcessedOffset_eq h hn]
  rw [queued_length h] at hn
  unfold ahead at ha
  have hp := h.processed_received
  have hq := h.processed_parsed
  refine ⟨h.memory, h.size_bound, h.size_lt, ?_, h.received_size, ?_, h.parsed_bound⟩
  · dsimp only
    omega
  · dsimp only
    omega

theorem queued_updateProcessedOffset (h : b.Within cap) (hn : n ≤ b.queued.length) :
    (b.updateProcessedOffset n).queued = b.queued.drop n := by
  rw [updateProcessedOffset_eq h hn]
  simp only [queued, List.drop_take, List.drop_drop]
  congr 1
  omega

theorem ahead_updateProcessedOffset (h : b.Within cap) (hn : n ≤ b.queued.length) :
    (b.updateProcessedOffset n).ahead = b.ahead - n := by
  rw [updateProcessedOffset_eq h hn]
  simp only [ahead]
  omega

theorem updateProcessedBytes_valid (h : b.Within cap) (hn : n ≤ b.queued.length)
    (ha : n ≤ b.ahead) : (b.updateProcessedBytes n).Within cap :=
  tryRecycleBuffer_valid (updateProcessedOffset_valid h hn ha)

theorem queued_updateProcessedBytes (h : b.Within cap) (hn : n ≤ b.queued.length)
    (ha : n ≤ b.ahead) : (b.updateProcessedBytes n).queued = b.queued.drop n := by
  rw [updateProcessedBytes, queued_tryRecycleBuffer (updateProcessedOffset_valid h hn ha),
    queued_updateProcessedOffset h hn]

theorem ahead_updateProcessedBytes (h : b.Within cap) (hn : n ≤ b.queued.length)
    (ha : n ≤ b.ahead) : (b.updateProcessedBytes n).ahead = b.ahead - n := by
  rw [updateProcessedBytes, ahead_tryRecycleBuffer (updateProcessedOffset_valid h hn ha),
    ahead_updateProcessedOffset h hn]

theorem updateParsedBytes_eq (hn : b.parsedOffset + n < 2 ^ 64) :
    b.updateParsedBytes n = { b with parsedOffset := b.parsedOffset + n } := by
  rw [updateParsedBytes, addSize_eq hn]

theorem updateParsedBytes_valid (h : b.Within cap) (hn : b.parsedOffset + n < 2 ^ 64) :
    (b.updateParsedBytes n).Within cap := by
  rw [updateParsedBytes_eq hn]
  have hp := h.processed_parsed
  refine ⟨h.memory, h.size_bound, h.size_lt, h.processed_received, h.received_size, ?_, hn⟩
  dsimp only
  omega

@[simp] theorem queued_updateParsedBytes : (b.updateParsedBytes n).queued = b.queued := rfl

theorem ahead_updateParsedBytes (h : b.Within cap) (hn : b.parsedOffset + n < 2 ^ 64) :
    (b.updateParsedBytes n).ahead = b.ahead + n := by
  have hp := h.processed_parsed
  rw [updateParsedBytes_eq hn]
  simp only [ahead]
  omega

theorem parsedOffset_le (h : b.Valid) : b.parsedOffset ≤ 2 ^ 20 + b.ahead := by
  have := h.processed_received
  have := h.received_size
  have := h.size_bound
  unfold ahead
  omega

theorem cutReceivedTail_eq (h : b.Within cap) (hn : n ≤ b.queued.length) :
    b.cutReceivedTail n = { b with receivedOffset := b.receivedOffset - n } := by
  have := h.received_size
  have := h.size_lt
  rw [queued_length h] at hn
  rw [cutReceivedTail, subSize_eq (by omega) (by omega)]

theorem cutReceivedTail_valid (h : b.Within cap) (hn : n ≤ b.queued.length) :
    (b.cutReceivedTail n).Within cap := by
  rw [cutReceivedTail_eq h hn]
  rw [queued_length h] at hn
  have := h.received_size
  have := h.processed_received
  refine ⟨h.memory, h.size_bound, h.size_lt, ?_, ?_, h.processed_parsed, h.parsed_bound⟩
  · dsimp only
    omega
  · dsimp only
    omega

theorem queued_cutReceivedTail (h : b.Within cap) (hn : n ≤ b.queued.length) :
    (b.cutReceivedTail n).queued = b.queued.take (b.queued.length - n) := by
  rw [cutReceivedTail_eq h hn, queued_length h]
  simp only [queued, List.take_take]
  congr 1
  omega

@[simp] theorem ahead_cutReceivedTail : (b.cutReceivedTail n).ahead = b.ahead := rfl

theorem pushReplyData_reset_valid (h : b.Within cap) {bytes : Bytes}
    (hn : bytes.length ≤ b.bufferSize) (parsed : Bool) :
    (b.reset.pushReplyData bytes parsed).Within cap := by
  have hm := h.memory
  have hs := h.size_lt
  have ha : addSize 0 bytes.length = bytes.length := by
    rw [addSize_eq (by omega), Nat.zero_add]
  refine ⟨?_, h.size_bound, hs, Nat.zero_le _, ?_, Nat.zero_le _, ?_⟩
  · simp only [pushReplyData, reset, List.length_append, List.length_drop]
    omega
  · simp only [pushReplyData, reset, ha]
    exact hn
  · simp only [pushReplyData, reset, ha]
    split <;> omega

theorem queued_pushReplyData_reset (h : b.Within cap) {bytes : Bytes}
    (hn : bytes.length ≤ b.bufferSize) (parsed : Bool) :
    (b.reset.pushReplyData bytes parsed).queued = bytes := by
  have hs := h.size_lt
  simp [queued, pushReplyData, reset, addSize_eq (show 0 + bytes.length < 2 ^ 64 by omega)]

theorem ahead_pushReplyData_reset (h : b.Within cap) {bytes : Bytes}
    (hn : bytes.length ≤ b.bufferSize) (parsed : Bool) :
    (b.reset.pushReplyData bytes parsed).ahead = if parsed then bytes.length else 0 := by
  have hs := h.size_lt
  simp [ahead, pushReplyData, reset, addSize_eq (show 0 + bytes.length < 2 ^ 64 by omega)]

/-- How `try_recycle_buffer` leaves a buffer that is not locked. -/
def Compact (b : ReadBuffer) : Prop := b.processedOffset + b.receivedOffset ≤ b.bufferSize

@[simp] theorem recycleLockCount_tryRecycleBuffer :
    b.tryRecycleBuffer.recycleLockCount = b.recycleLockCount := by
  unfold tryRecycleBuffer
  split
  · split
    · rfl
    · split <;> rfl
  · rfl

@[simp] theorem recycleLockCount_decRecycleLock :
    b.decRecycleLock.recycleLockCount = b.recycleLockCount - 1 :=
  recycleLockCount_tryRecycleBuffer

@[simp] theorem recycleLockCount_updateProcessedBytes {n : ℕ} :
    (b.updateProcessedBytes n).recycleLockCount = b.recycleLockCount :=
  recycleLockCount_tryRecycleBuffer

theorem tryRecycleBuffer_locked (h : b.recycleLocked = true) : b.tryRecycleBuffer = b := by
  rw [recycleLocked, decide_eq_true_eq] at h
  rw [tryRecycleBuffer, if_neg (by omega)]

theorem take_receive (b : ReadBuffer) (h : b.Within cap) (chunk : Bytes) :
    (b.receive chunk).data.take b.receivedOffset = b.data.take b.receivedOffset := by
  have hm := h.memory
  have hr := h.received_size
  have hlen : (b.data.take b.receivedOffset).length = b.receivedOffset := by
    rw [List.length_take]
    omega
  rw [receive, List.append_assoc]
  exact List.take_left' hlen

theorem passed_decRecycleLock (hl : 1 < b.recycleLockCount) :
    b.decRecycleLock.passed = b.passed := by
  have hlocked :
      ({ b with recycleLockCount := b.recycleLockCount - 1 } : ReadBuffer).recycleLocked = true :=
    decide_eq_true (show 0 < b.recycleLockCount - 1 by omega)
  rw [decRecycleLock, tryRecycleBuffer_locked hlocked]
  rfl

theorem passed_receive (h : b.Within cap) {chunk : Bytes} :
    (b.receive chunk).passed = b.passed := by
  have htake := congrArg (List.take b.processedOffset) (take_receive b h chunk)
  rw [List.take_take, List.take_take, Nat.min_eq_left h.processed_received] at htake
  exact htake

/-- Under a lock the bytes that are processed stay where they are. -/
theorem passed_updateProcessedBytes (h : b.Within cap) {n : ℕ} (hn : n ≤ b.queued.length)
    (hl : 0 < b.recycleLockCount) :
    (b.updateProcessedBytes n).passed = b.passed ++ b.queued.take n := by
  have hkeep : b.updateProcessedBytes n = b.updateProcessedOffset n :=
    tryRecycleBuffer_locked (decide_eq_true hl)
  rw [hkeep]
  rw [queued_length h] at hn
  have hsum : addSize b.processedOffset n = b.processedOffset + n :=
    addSize_eq (by have := h.size_lt; have := h.received_size; have := h.processed_received; omega)
  simp only [passed, updateProcessedOffset, hsum, queued, List.take_take, Nat.min_eq_left hn]
  exact List.take_add

theorem tryRecycleBuffer_compact (h : b.Within cap) (hl : b.recycleLockCount = 0) :
    b.tryRecycleBuffer.Compact := by
  have hr := h.received_size
  have e₂ := subSize_eq h.processed_received (by have := h.size_lt; omega)
  have e₃ := subSize_eq hr (by have := h.size_lt; omega)
  rw [tryRecycleBuffer, if_pos hl, e₃, e₂]
  split
  · exact Nat.zero_le _
  · split
    · simp only [Compact]
      omega
    · simp only [Compact]
      omega

theorem decRecycleLock_compact (h : b.Within cap) (hl : b.recycleLockCount = 1) :
    b.decRecycleLock.Compact :=
  tryRecycleBuffer_compact (b := { b with recycleLockCount := b.recycleLockCount - 1 })
    ⟨h.memory, h.size_bound, h.size_lt, h.processed_received, h.received_size, h.processed_parsed,
      h.parsed_bound⟩ (by simp [hl])

/-- A compact buffer with little in it can take more. -/
theorem Compact.hasMuchFreeSpace (hc : b.Compact) (h : b.Within cap) (hq : b.queued.length < 40)
    (hs : 1024 ≤ b.bufferSize) : b.hasMuchFreeSpace = true := by
  have hp := h.processed_received
  rw [queued_length h] at hq
  unfold Compact at hc
  rw [ReadBuffer.hasMuchFreeSpace, decide_eq_true_eq]
  omega

end ReadBuffer
end Yarmproxy

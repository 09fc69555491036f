import Yarmproxy.ReadBuffer
import Yarmproxy.Transition

/-! # The read buffer as a queue

A `ReadBuffer`, called as its users call it, is an unbounded queue of bytes with a mark for
what has been parsed. The mark may lie behind the last byte that has arrived. -/
namespace Yarmproxy

structure ByteQueue where
  contents : Bytes
  /-- how many bytes from the front on are parsed -/
  ahead : ℕ
  deriving DecidableEq, Repr

/-- The calls of the users. `processUnparsed` is the pair of calls in `ProcessUnparsedPart`,
`refill` is `Reset` with `push_reply_data`. -/
inductive BufferCall where
  | receive (chunk : Bytes)
  | parse (n : ℕ)
  | process (n : ℕ)
  | skip (n : ℕ)
  | processUnparsed (processed parsed : ℕ)
  | cut (n : ℕ)
  | lock
  | unlock
  | refill (bytes : Bytes) (parsed : Bool)
  deriving DecidableEq, Repr

namespace ByteQueue

def Enabled (q : ByteQueue) : BufferCall → Prop
  | .process n | .skip n => n ≤ min q.contents.length q.ahead
  | .processUnparsed processed parsed =>
    processed ≤ q.contents.length ∧ processed ≤ q.ahead + parsed
  | .cut n => n ≤ q.contents.length - q.ahead
  | _ => True

def next (q : ByteQueue) : BufferCall → ByteQueue
  | .receive chunk => ⟨q.contents ++ chunk, q.ahead⟩
  | .parse n => ⟨q.contents, q.ahead + n⟩
  | .process n | .skip n => ⟨q.contents.drop n, q.ahead - n⟩
  | .processUnparsed processed parsed =>
    ⟨q.contents.drop processed, q.ahead + parsed - processed⟩
  | .cut n => ⟨q.contents.take (q.contents.length - n), q.ahead⟩
  | .lock | .unlock => q
  | .refill bytes parsed => ⟨bytes, if parsed then bytes.length else 0⟩

def system : Transition.System ByteQueue BufferCall := ⟨Enabled, next⟩

end ByteQueue

namespace ReadBuffer

/-- How the users call; an amount is any `size_t`. -/
def Enabled (b : ReadBuffer) : BufferCall → Prop
  | .receive chunk => chunk.length ≤ b.freeSpaceSize
  | .parse n => n < 2 ^ 64
  | .process n | .skip n => n ≤ b.unprocessedBytes
  | .processUnparsed processed parsed => b.recycleLocked = true ∧ processed ≤ b.receivedBytes ∧
      parsed < 2 ^ 64 ∧ b.processedOffset + processed ≤ b.parsedOffset + parsed
  | .cut n => n ≤ b.unparsedBytes
  | .lock => True
  | .unlock => b.recycleLocked = true
  | .refill bytes _ => bytes.length ≤ b.bufferSize

instance (b : ReadBuffer) (c : BufferCall) : Decidable (b.Enabled c) := by
  cases c <;> simp only [Enabled] <;> infer_instance

def next (b : ReadBuffer) : BufferCall → ReadBuffer
  | .receive chunk => b.receive chunk
  | .parse n => b.updateParsedBytes n
  | .process n => b.updateProcessedBytes n
  | .skip n => b.updateProcessedOffset n
  | .processUnparsed processed parsed =>
    (b.updateProcessedBytes processed).updateParsedBytes parsed
  | .cut n => b.cutReceivedTail n
  | .lock => b.incRecycleLock
  | .unlock => b.decRecycleLock
  | .refill bytes parsed => b.reset.pushReplyData bytes parsed

def system : Transition.System ReadBuffer BufferCall := ⟨Enabled, next⟩

instance (b : ReadBuffer) (c : BufferCall) : Decidable (system.Enabled b c) :=
  inferInstanceAs (Decidable (b.Enabled c))

/-- `parsed_offset_` does not overflow in the call, and a buffer that is locked is not refilled. -/
def Orderly (b : ReadBuffer) : BufferCall → Prop
  | .parse n | .processUnparsed _ n => b.parsedOffset + n < 2 ^ 64
  | .refill _ _ => b.recycleLocked = false
  | _ => True

instance (b : ReadBuffer) (c : BufferCall) : Decidable (Orderly b c) := by
  cases c <;> simp only [Orderly] <;> infer_instance

def differences (b : ReadBuffer) : List (ℕ × ℕ) :=
  [(b.bufferSize, b.receivedOffset), (b.receivedOffset, b.processedOffset),
    (min b.receivedOffset b.parsedOffset, b.processedOffset)]

def recycling (b : ReadBuffer) : List (ℕ × ℕ) :=
  if b.recycleLockCount = 0 then
    if b.processedOffset = b.receivedOffset then [(b.parsedOffset, b.processedOffset)]
    else (b.bufferSize, b.receivedOffset) ::
      if b.processedOffset > subSize b.bufferSize b.receivedOffset then
        [(b.receivedOffset, b.processedOffset), (b.parsedOffset, b.processedOffset)]
      else []
  else []

def plain (b : ReadBuffer) : BufferCall → ReadBuffer
  | .process n => b.updateProcessedOffset n
  | .processUnparsed processed parsed =>
    (b.updateProcessedOffset processed).updateParsedBytes parsed
  | .unlock => { b with recycleLockCount := b.recycleLockCount - 1 }
  | c => b.next c

def subtractions (b : ReadBuffer) : BufferCall → List (ℕ × ℕ)
  | .process n | .processUnparsed n _ => (b.updateProcessedOffset n).recycling
  | .unlock => (b.plain .unlock).recycling
  | .cut n => [(b.receivedOffset, n)]
  | _ => []

structure Refines (b : ReadBuffer) (q : ByteQueue) : Prop where
  processed_received : b.processedOffset ≤ b.receivedOffset
  received_size : b.receivedOffset ≤ b.bufferSize
  processed_parsed : b.processedOffset ≤ b.parsedOffset
  differences : ∀ d ∈ b.differences, d.2 ≤ d.1
  contents : b.queued = q.contents
  ahead : b.parsedOffset - b.processedOffset = q.ahead

/-- Nothing is recycled, and the bytes that have been received stay where they are. -/
structure Unmoved (b : ReadBuffer) (c : BufferCall) : Prop where
  plain : b.next c = b.plain c
  bytes : (b.next c).data.take b.receivedOffset = b.data.take b.receivedOffset

/-- What a call does not do: wrap around, change the distance of the parsed offset from the
processed one by recycling, or move anything under a lock. -/
structure Steady (b : ReadBuffer) (c : BufferCall) : Prop where
  subtractions : ∀ d ∈ b.subtractions c, d.2 ≤ d.1
  ahead : (b.next c).parsedOffset - (b.next c).processedOffset =
    (b.plain c).parsedOffset - (b.plain c).processedOffset
  /-- the lock is held when the call is made, and it is not the last one that is given back -/
  locked : b.recycleLocked = true → (c = .unlock → (b.next c).recycleLocked = true) → b.Unmoved c
  locked_after : (b.next c).recycleLocked = true → b.Unmoved c

structure Simulates (cap : ℕ) (b : ReadBuffer) (q : ByteQueue) : Prop where
  within : b.Within cap
  contents : b.queued = q.contents
  ahead : b.ahead = q.ahead

variable {b : ReadBuffer} {q : ByteQueue} {c : BufferCall} {cap n : ℕ}

theorem processUnparsed_eq {processed parsed : ℕ} (hl : b.recycleLocked = true) :
    b.next (.processUnparsed processed parsed) = b.plain (.processUnparsed processed parsed) := by
  have hkeep : b.updateProcessedBytes processed = b.updateProcessedOffset processed :=
    tryRecycleBuffer_locked hl
  rw [next, plain, hkeep]

theorem processUnparsed_simulates {processed parsed : ℕ} (h : Simulates cap b q)
    (he : b.Enabled (.processUnparsed processed parsed))
    (hc : Orderly b (.processUnparsed processed parsed)) :
    q.Enabled (.processUnparsed processed parsed) ∧
      Simulates cap (b.next (.processUnparsed processed parsed))
        (q.next (.processUnparsed processed parsed)) := by
  obtain ⟨hl, hp, _, hq⟩ := he
  have hw := h.within
  have hcontents := h.contents
  have hahead := h.ahead
  have hle := hw.processed_parsed
  rw [receivedBytes_eq hw] at hp
  have heq : b.next (.processUnparsed processed parsed) =
      { b with
        processedOffset := b.processedOffset + processed
        parsedOffset := b.parsedOffset + parsed } := by
    rw [processUnparsed_eq hl, plain, updateProcessedOffset_eq hw hp]
    exact updateParsedBytes_eq hc
  have hdrop := queued_updateProcessedOffset hw hp
  rw [updateProcessedOffset_eq hw hp] at hdrop
  refine ⟨⟨hcontents ▸ hp, ?_⟩, ⟨?_, ?_, ?_⟩⟩
  · rw [← hahead, ReadBuffer.ahead]
    omega
  · rw [heq]
    rw [queued_length hw] at hp
    have hr := hw.processed_received
    refine ⟨hw.memory, hw.size_bound, hw.size_lt, ?_, hw.received_size, hq, hc⟩
    dsimp only
    omega
  · rw [heq, ByteQueue.next, ← hcontents]
    exact hdrop
  · rw [heq, ByteQueue.next, ← hahead]
    simp only [ReadBuffer.ahead]
    omega

theorem step_simulates (h : Simulates cap b q) (he : b.Enabled c) (hc : Orderly b c) :
    q.Enabled c ∧ Simulates cap (b.next c) (q.next c) := by
  have hw := h.within
  have hcontents := h.contents
  have hahead := h.ahead
  cases c with
  | receive chunk =>
    refine ⟨trivial, receive_valid hw he, ?_, hahead⟩
    rw [next, ByteQueue.next, queued_receive hw he, hcontents]
  | parse n =>
    refine ⟨trivial, updateParsedBytes_valid hw hc, hcontents, ?_⟩
    rw [next, ByteQueue.next, ahead_updateParsedBytes hw hc, hahead]
  | process n =>
    have hn : n ≤ min b.queued.length b.ahead := unprocessedBytes_eq hw ▸ he
    obtain ⟨hl, ha⟩ := Nat.le_min.mp hn
    refine ⟨?_, updateProcessedBytes_valid hw hl ha, ?_, ?_⟩
    · rwa [ByteQueue.Enabled, ← hcontents, ← hahead]
    · rw [next, ByteQueue.next, queued_updateProcessedBytes hw hl ha, hcontents]
    · rw [next, ByteQueue.next, ahead_updateProcessedBytes hw hl ha, hahead]
  | skip n =>
    have hn : n ≤ min b.queued.length b.ahead := unprocessedBytes_eq hw ▸ he
    obtain ⟨hl, ha⟩ := Nat.le_min.mp hn
    refine ⟨?_, updateProcessedOffset_valid hw hl ha, ?_, ?_⟩
    · rwa [ByteQueue.Enabled, ← hcontents, ← hahead]
    · rw [next, ByteQueue.next, queued_updateProcessedOffset hw hl, hcontents]
    · rw [next, ByteQueue.next, ahead_updateProcessedOffset hw hl, hahead]
  | processUnparsed processed parsed => exact processUnparsed_simulates h he hc
  | cut n =>
    have hn : n ≤ b.queued.length - b.ahead := unparsedBytes_eq hw ▸ he
    have hl : n ≤ b.queued.length := hn.trans (Nat.sub_le _ _)
    refine ⟨?_, cutReceivedTail_valid hw hl, ?_, hahead⟩
    · rwa [ByteQueue.Enabled, ← hcontents, ← hahead]
    · rw [next, ByteQueue.next, queued_cutReceivedTail hw hl, hcontents]
  | lock => exact ⟨trivial, incRecycleLock_valid hw, hcontents, hahead⟩
  | unlock =>
    refine ⟨trivial, decRecycleLock_valid hw, ?_, ?_⟩
    · exact (queued_decRecycleLock hw).trans hcontents
    · exact (ahead_decRecycleLock hw).trans hahead
  | refill bytes parsed =>
    refine ⟨trivial, pushReplyData_reset_valid hw he parsed, ?_, ?_⟩
    · exact queued_pushReplyData_reset hw he parsed
    · exact ahead_pushReplyData_reset hw he parsed

theorem Simulates.refines (h : Simulates cap b q) : Refines b q where
  processed_received := h.within.processed_received
  received_size := h.within.received_size
  processed_parsed := h.within.processed_parsed
  differences d hd := by
    have h₁ := h.within.processed_received
    have h₂ := h.within.received_size
    have h₃ := h.within.processed_parsed
    simp only [ReadBuffer.differences, List.mem_cons, List.not_mem_nil, or_false] at hd
    rcases hd with rfl | rfl | rfl
    · exact h₂
    · exact h₁
    · exact Nat.le_min.mpr ⟨h₁, h₃⟩
  contents := h.contents
  ahead := h.ahead

theorem recycling_le (h : b.Within cap) : ∀ d ∈ b.recycling, d.2 ≤ d.1 := by
  have h₁ := h.processed_received
  have h₂ := h.received_size
  have h₃ := h.processed_parsed
  intro d hd
  rw [recycling] at hd
  split at hd
  · split at hd
    · obtain rfl := List.mem_singleton.mp hd
      exact h₃
    · rcases List.mem_cons.mp hd with rfl | hd
      · exact h₂
      · split at hd
        · simp only [List.mem_cons, List.not_mem_nil, or_false] at hd
          rcases hd with rfl | rfl
          · exact h₁
          · exact h₃
        · cases hd
  · cases hd

theorem recycling_locked (h : b.recycleLocked = true) : b.recycling = [] := by
  rw [recycleLocked, decide_eq_true_eq] at h
  rw [recycling, if_neg (by omega)]

theorem Within.unlocked (h : b.Within cap) : (b.plain .unlock).Within cap :=
  ⟨h.memory, h.size_bound, h.size_lt, h.processed_received, h.received_size, h.processed_parsed,
    h.parsed_bound⟩

theorem Steady.of_plain (hs : ∀ d ∈ b.subtractions c, d.2 ≤ d.1) (hp : b.next c = b.plain c)
    (hd : (b.next c).data.take b.receivedOffset = b.data.take b.receivedOffset) : b.Steady c :=
  ⟨hs, by rw [hp], fun _ _ => ⟨hp, hd⟩, fun _ => ⟨hp, hd⟩⟩

theorem Unmoved.of_recycle (hr : b.next c = (b.plain c).tryRecycleBuffer)
    (hd : (b.plain c).data = b.data) (hl : (b.next c).recycleLocked = true) : b.Unmoved c := by
  have hp : b.next c = b.plain c := by
    refine hr.trans (tryRecycleBuffer_locked ?_)
    rw [hr, recycleLocked, recycleLockCount_tryRecycleBuffer] at hl
    exact hl
  exact ⟨hp, by rw [hp, hd]⟩

theorem Steady.of_recycle (hw : (b.plain c).Within cap)
    (hs : b.subtractions c = (b.plain c).recycling)
    (hr : b.next c = (b.plain c).tryRecycleBuffer) (hd : (b.plain c).data = b.data)
    (hl : b.recycleLocked = true → (c = .unlock → (b.next c).recycleLocked = true) →
      (b.next c).recycleLocked = true) : b.Steady c where
  subtractions := hs ▸ recycling_le hw
  ahead := by
    rw [hr]
    exact ahead_tryRecycleBuffer hw
  locked hbefore hafter := .of_recycle hr hd (hl hbefore hafter)
  locked_after hafter := .of_recycle hr hd hafter

theorem steady (h : b.Within cap) (he : b.Enabled c) (ho : Orderly b c) : b.Steady c := by
  cases c with
  | receive chunk => exact .of_plain (List.forall_mem_nil _) rfl (take_receive b h chunk)
  | parse n => exact .of_plain (List.forall_mem_nil _) rfl rfl
  | process n =>
    have hn : n ≤ min b.queued.length b.ahead := unprocessedBytes_eq h ▸ he
    obtain ⟨hl, ha⟩ := Nat.le_min.mp hn
    refine .of_recycle (updateProcessedOffset_valid h hl ha) rfl rfl rfl fun hbefore _ => ?_
    rw [next, updateProcessedBytes, recycleLocked, recycleLockCount_tryRecycleBuffer]
    exact hbefore
  | skip n => exact .of_plain (List.forall_mem_nil _) rfl rfl
  | processUnparsed processed parsed =>
    have hl : (b.updateProcessedOffset processed).recycleLocked = true := he.1
    refine .of_plain ?_ (processUnparsed_eq he.1) ?_
    · rw [subtractions, recycling_locked hl]
      exact List.forall_mem_nil _
    · rw [processUnparsed_eq he.1]
      rfl
  | cut n =>
    have hn : n ≤ b.queued.length - b.ahead := unparsedBytes_eq h ▸ he
    rw [queued_length h] at hn
    refine .of_plain (fun d hd => ?_) rfl rfl
    obtain rfl := List.mem_singleton.mp hd
    dsimp only
    omega
  | lock => exact .of_plain (List.forall_mem_nil _) rfl rfl
  | unlock => exact .of_recycle h.unlocked rfl rfl rfl fun _ hafter => hafter rfl
  | refill bytes parsed =>
    exact ⟨List.forall_mem_nil _, rfl, fun hl => absurd (ho.symm.trans hl) Bool.false_ne_true,
      fun hl => absurd hl Bool.false_ne_true⟩

/-- A run of calls in which the parsed offset never overflows and no locked buffer is refilled is a
run of the queue; the buffer holds what the queue holds, and no further call moves anything it
should not. -/
theorem buffer_refines_queue {data : Bytes} (hd : data.length < 2 ^ 64) (cs : List BufferCall)
    (h : Transition.ValidTrace system Orderly (new data) cs) :
    let b := Transition.runTrace system (new data) cs
    Transition.ValidTrace ByteQueue.system Transition.Unrestricted ⟨[], 0⟩ cs ∧
      Refines b (Transition.runTrace ByteQueue.system ⟨[], 0⟩ cs) ∧
      ∀ c, b.Enabled c → Orderly b c → b.Steady c := by
  have hnew : Simulates data.length (new data) ⟨[], 0⟩ := ⟨new_within hd, rfl, rfl⟩
  obtain ⟨hvalid, hsim⟩ := Transition.ValidTrace.simulates (M := system) (N := ByteQueue.system)
    (P := Orderly) (R := Simulates data.length) (fun _ _ _ hr he hc => step_simulates hr he hc) cs
      (new data)
    ⟨[], 0⟩ hnew h
  exact ⟨hvalid, hsim.refines, fun c he ho => steady hsim.within he ho⟩

def threeBytes : List BufferCall :=
  [.receive [1, 2], .parse 2, .lock, .process 1, .receive [3], .unlock, .process 1]

theorem threeBytes_refines :
    Transition.ValidTrace system Orderly (new [0, 0, 0]) threeBytes ∧
      Refines (Transition.runTrace system (new [0, 0, 0]) threeBytes) ⟨[3], 0⟩ :=
  ⟨by decide +kernel, (buffer_refines_queue (by decide) threeBytes (by decide +kernel)).2.1⟩

/-- A parsed amount that the counter cannot hold: the parsed offset falls behind the processed
one, and `unprocessed_bytes` wraps around. A buffer that is refilled under a lock: the bytes that
the lock is for are overwritten, and the lock is gone. -/
theorem queue_broken :
    (∃ cs, Transition.ValidTrace system Transition.Unrestricted (new [0, 0, 0, 0]) cs ∧
      ¬ (Transition.runTrace system (new [0, 0, 0, 0]) cs).processedOffset ≤
        (Transition.runTrace system (new [0, 0, 0, 0]) cs).parsedOffset ∧
      (Transition.runTrace system (new [0, 0, 0, 0]) cs).unprocessedBytes = 2 ^ 64 - 1) ∧
    ∃ cs c, Transition.ValidTrace system Orderly (new [0, 0, 0, 0]) cs ∧
      (Transition.runTrace system (new [0, 0, 0, 0]) cs).Enabled c ∧
      (Transition.runTrace system (new [0, 0, 0, 0]) cs).recycleLocked = true ∧ c ≠ .unlock ∧
      ¬ (Transition.runTrace system (new [0, 0, 0, 0]) cs).Unmoved c := by
  refine ⟨⟨[.receive [1, 2], .parse 2, .skip 1, .parse (2 ^ 64 - 2)], by decide +kernel,
    by decide +kernel, by decide +kernel⟩, [.receive [1, 2], .lock], .refill [9] true,
    by decide +kernel, by decide +kernel, by decide +kernel, by decide, fun h => ?_⟩
  exact absurd h.bytes (by decide +kernel)

end ReadBuffer
end Yarmproxy

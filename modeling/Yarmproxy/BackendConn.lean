import Yarmproxy.ReadBuffer

/-! # Backend connections

One connection to a backend, from its allocation to one command until its release. The
socket and the timers appear as the operations they may still complete: `query` for the
connect or write, `isReadingReply` for the read. -/
namespace Yarmproxy

inductive ErrorCode where
  | success | connect | readQuery | writeQuery | readReply | writeReply | protocol
  | backendConnectTimeout | backendWriteTimeout | backendReadTimeout | others
  deriving DecidableEq, Repr

/-- The outstanding operation of a `WriteQuery`. `at` is the offset of the data in the client
buffer when it lies there. `refused` is the posted failure of an aborted connection. -/
inductive QueryOp where
  | connecting (at_ : Option ℕ) (data : Bytes)
  | writing (at_ : Option ℕ) (data : Bytes)
  | refused
  deriving DecidableEq, Repr

structure BackendConn (ε : Type) where
  remoteEndpoint : ε
  buffer : ReadBuffer
  socketOpen : Bool
  noRecycle : Bool
  aborted : Bool
  isReadingReply : Bool
  hasReadSomeReply : Bool
  replyRecvComplete : Bool
  writeTimerCanceled : Bool
  readTimerCanceled : Bool
  query : Option QueryOp
  /-- the bytes written to the socket for the present command -/
  sent : Bytes
  /-- the bytes read from the socket for the present command -/
  received : Bytes
  deriving DecidableEq, Repr

inductive BackendEvent where
  | connected | connectFailed | queryWritten | queryWriteFailed | queryRefused
  | replyRead (chunk : Bytes) | replyReadFailed
  | connectTimeout | writeTimeout | readTimeout
  deriving DecidableEq, Repr

/-- The callbacks a command binds to its backends. -/
inductive Callback where
  | querySent (ec : ErrorCode)
  | replyReceived (ec : ErrorCode)
  deriving DecidableEq, Repr

namespace BackendConn
variable {ε : Type}

/-- A connection as the pool hands it out: fresh, or reset and still connected. -/
def allocated (ep : ε) (data : Bytes) (socketOpen : Bool) : BackendConn ε :=
  ⟨ep, .new data, socketOpen, false, false, false, false, false, false, false, none, [], []⟩

def finished (c : BackendConn ε) : Bool := c.replyRecvComplete && c.buffer.unprocessedBytes == 0

def recyclable (c : BackendConn ε) : Bool := !c.noRecycle && c.finished

def error (c : BackendConn ε) : Bool := c.noRecycle

def setReplyRecvComplete (c : BackendConn ε) : BackendConn ε := { c with replyRecvComplete := true }

def setNoRecycle (c : BackendConn ε) : BackendConn ε := { c with noRecycle := true }

def setReplyData (c : BackendConn ε) (data : Bytes) (parsed : Bool) : BackendConn ε :=
  { c with buffer := c.buffer.reset.pushReplyData data parsed }

def abort (c : BackendConn ε) : BackendConn ε :=
  if c.aborted then c
  else { c with
    aborted := true
    noRecycle := true
    isReadingReply := false
    socketOpen := false
    writeTimerCanceled := true
    readTimerCanceled := true
    query := none }

/-- `Close`; the handlers of what was outstanding find `aborted_` set. -/
def close (c : BackendConn ε) : BackendConn ε :=
  if c.aborted then c else { c with socketOpen := false, aborted := true, query := none }

/-- `Reset`; it ends the present command. -/
def reset (c : BackendConn ε) : BackendConn ε :=
  { c with
    isReadingReply := false
    hasReadSomeReply := false
    replyRecvComplete := false
    writeTimerCanceled := false
    readTimerCanceled := false
    buffer := c.buffer.reset
    sent := []
    received := [] }

def readReply (c : BackendConn ε) : BackendConn ε :=
  { c with
    isReadingReply := true
    buffer := c.buffer.incRecycleLock
    readTimerCanceled := false }

def tryReadMoreReply (c : BackendConn ε) : BackendConn ε :=
  if c.replyRecvComplete || c.isReadingReply || !c.buffer.hasMuchFreeSpace then c
  else c.readReply

/-- `async_connect` opens the socket. -/
def writeQuery (c : BackendConn ε) (at_ : Option ℕ) (data : Bytes) : BackendConn ε :=
  if c.aborted then { c with query := some .refused }
  else if c.socketOpen then
    { c with writeTimerCanceled := false, query := some (.writing at_ data) }
  else
    { c with socketOpen := true, writeTimerCanceled := false, query := some (.connecting at_ data) }

/-- A timer that was armed once may fire as long as `OnTimeout` does not find it cancelled. -/
def Enabled (c : BackendConn ε) : BackendEvent → Prop
  | .connected | .connectFailed => ∃ at_ data, c.query = some (.connecting at_ data)
  | .queryWritten | .queryWriteFailed => ∃ at_ data, c.query = some (.writing at_ data)
  | .queryRefused => c.query = some .refused
  | .replyRead chunk =>
    c.isReadingReply = true ∧ chunk ≠ [] ∧ chunk.length ≤ c.buffer.freeSpaceSize
  | .replyReadFailed => c.isReadingReply = true
  | .connectTimeout | .writeTimeout => c.aborted = false ∧ c.writeTimerCanceled = false
  | .readTimeout => c.aborted = false ∧ c.readTimerCanceled = false

def QueryOp.isConnecting : QueryOp → Bool
  | .connecting _ _ => true
  | _ => false

def QueryOp.isWriting : QueryOp → Bool
  | .writing _ _ => true
  | _ => false

instance (c : BackendConn ε) : ∀ e, Decidable (c.Enabled e)
  | .connected | .connectFailed =>
    decidable_of_iff (c.query.any QueryOp.isConnecting = true) (by
      rcases hq : c.query with _ | op
      · simp [Enabled, hq]
      · cases op <;> simp [Enabled, hq, QueryOp.isConnecting])
  | .queryWritten | .queryWriteFailed =>
    decidable_of_iff (c.query.any QueryOp.isWriting = true) (by
      rcases hq : c.query with _ | op
      · simp [Enabled, hq]
      · cases op <;> simp [Enabled, hq, QueryOp.isWriting])
  | .queryRefused => inferInstanceAs (Decidable (_ = _))
  | .replyRead _ => inferInstanceAs (Decidable (_ ∧ _))
  | .replyReadFailed => inferInstanceAs (Decidable (_ = _))
  | .connectTimeout | .writeTimeout | .readTimeout => inferInstanceAs (Decidable (_ ∧ _))

/-- The completion and timer handlers up to the callback they invoke. A write completes
with all its bytes, as `async_write` does. -/
def handle (c : BackendConn ε) : BackendEvent → BackendConn ε × Option Callback
  | .connected =>
    match c.query with
    | some (.connecting at_ data) =>
      ({ c with writeTimerCanceled := false, query := some (.writing at_ data) }, none)
    | _ => (c, none)
  | .connectFailed =>
    ({ c with writeTimerCanceled := true, socketOpen := false, query := none },
      some (.querySent .connect))
  | .queryWritten =>
    match c.query with
    | some (.writing _ data) =>
      ({ c with writeTimerCanceled := true, query := none, sent := c.sent ++ data },
        some (.querySent .success))
    | _ => (c, none)
  | .queryWriteFailed =>
    ({ c with writeTimerCanceled := true, socketOpen := false, query := none },
      some (.querySent .writeQuery))
  | .queryRefused => ({ c with query := none }, some (.querySent .writeQuery))
  | .replyRead chunk =>
    ({ c with
      readTimerCanceled := true
      isReadingReply := false
      hasReadSomeReply := true
      received := c.received ++ chunk
      buffer := (c.buffer.receive chunk).decRecycleLock }, some (.replyReceived .success))
  | .replyReadFailed =>
    ({ c with readTimerCanceled := true, isReadingReply := false, socketOpen := false },
      some (.replyReceived .readReply))
  | .connectTimeout => (c, some (.querySent .backendConnectTimeout))
  | .writeTimeout => (c, some (.querySent .backendWriteTimeout))
  | .readTimeout => (c, some (.replyReceived .backendReadTimeout))

/-- `OnTimeout` aborts the connection after its callback has returned. -/
def settle (c : BackendConn ε) : BackendEvent → BackendConn ε
  | .connectTimeout | .writeTimeout | .readTimeout => c.abort
  | _ => c

theorem writeQuery_eq (c : BackendConn ε) (at_ : Option ℕ) (data : Bytes) :
    ∃ op opened timer, c.writeQuery at_ data = { c with
      query := some op, socketOpen := opened, writeTimerCanceled := timer } := by
  unfold writeQuery
  split
  · exact ⟨_, _, _, rfl⟩
  · split
    · exact ⟨_, _, _, rfl⟩
    · exact ⟨_, _, _, rfl⟩

section ReplyRead
variable {c : BackendConn ε} {chunk : Bytes}

theorem replyRead_valid (hv : c.buffer.Valid) (hc : chunk.length ≤ c.buffer.freeSpaceSize) :
    (c.handle (.replyRead chunk)).1.buffer.Valid :=
  ReadBuffer.decRecycleLock_valid (ReadBuffer.receive_valid hv hc)

theorem queued_replyRead (hv : c.buffer.Valid) (hc : chunk.length ≤ c.buffer.freeSpaceSize) :
    (c.handle (.replyRead chunk)).1.buffer.queued = c.buffer.queued ++ chunk := by
  rw [handle, ReadBuffer.queued_decRecycleLock (ReadBuffer.receive_valid hv hc),
    ReadBuffer.queued_receive hv hc]

theorem ahead_replyRead (hv : c.buffer.Valid) (hc : chunk.length ≤ c.buffer.freeSpaceSize) :
    (c.handle (.replyRead chunk)).1.buffer.ahead = c.buffer.ahead := by
  rw [handle, ReadBuffer.ahead_decRecycleLock (ReadBuffer.receive_valid hv hc),
    ReadBuffer.ahead_receive]

@[simp] theorem bufferSize_replyRead :
    (c.handle (.replyRead chunk)).1.buffer.bufferSize = c.buffer.bufferSize := by
  simp [handle]

end ReplyRead

end BackendConn
end Yarmproxy

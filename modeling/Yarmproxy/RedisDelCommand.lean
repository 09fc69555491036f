import Yarmproxy.RedisMsetCommand

/-! # `RedisDelCommand`

`DEL`, `EXISTS` and `TOUCH`: the keys are regrouped by endpoint, batch by batch, and the
integers that the backends return are added up. -/
namespace Yarmproxy

variable {ε : Type}

/-- `phase_`: writing the header, writing the keys, reading the reply -/
inductive DelPhase where
  | sendingPrefix | sendingQueryData | readingReply
  deriving DecidableEq, Repr

structure DelSubquery (ε : Type) where
  backend : BackendConn ε
  keysCount : ℕ
  phase : DelPhase
  segments : List Segment
  deriving DecidableEq, Repr

structure RedisDelCommand (ε : Type) where
  cmdName : Bytes
  unparsedBulks : ℕ
  /-- the number of subqueries made so far -/
  count : ℕ
  subquery : ℕ → DelSubquery ε
  waitingSubqueries : List ℕ
  pendingSubqueries : List ℕ
  /-- an `int` -/
  totalDelCount : ℤ
  reply : ReplyState
  replyingBackend : Option ℕ
  /-- the subqueries whose backend has been handed back to the pool, in order -/
  released : List ℕ

namespace RedisDelCommand

def backend (c : RedisDelCommand ε) (b : ℕ) : BackendConn ε := (c.subquery b).backend

def setSubquery (c : RedisDelCommand ε) (b : ℕ) (s : DelSubquery ε) : RedisDelCommand ε :=
  { c with subquery := Function.update c.subquery b s }

def setBackend (c : RedisDelCommand ε) (b : ℕ) (backend : BackendConn ε) : RedisDelCommand ε :=
  c.setSubquery b { c.subquery b with backend := backend }

def pushSubquery [DecidableEq ε] (pool : Pool) (ep : ε) (data : Ptr) (bytes : ℕ)
    (s : ReadBuffer × RedisDelCommand ε) : ReadBuffer × RedisDelCommand ε :=
  let (buffer, c) := s
  match c.waitingSubqueries.find? fun b => (c.backend b).remoteEndpoint = ep with
  | none =>
    (buffer.incRecycleLock,
      { c.setSubquery c.count ⟨pool.allocate c.count ep, 1, .sendingPrefix,
          [⟨some data.off, data.bytes bytes⟩]⟩ with
        count := c.count + 1
        waitingSubqueries := c.waitingSubqueries ++ [c.count] })
  | some b =>
    let q := c.subquery b
    (buffer,
      c.setSubquery b { q with
        keysCount := q.keysCount + 1
        segments := growSegments q.segments data bytes })

/-- One round of the loops over the keys; `none` when the key reaches out of the buffer. -/
def pushKey [DecidableEq ε] (locate : Bytes → ε) (pool : Pool)
    (s : ReadBuffer × RedisDelCommand ε) (bulk : Bulk) :
    Option (ReadBuffer × RedisDelCommand ε) := do
  let key ← bulk.payload
  some (pushSubquery pool (locate key) bulk.rawData (intToSize bulk.presentSize) s)

def new [DecidableEq ε] [Inhabited ε] (locate : Bytes → ε) (pool : Pool) (buffer : ReadBuffer)
    (ba : BulkArray) : Option (ReadBuffer × RedisDelCommand ε) := do
  let verb ← ba.items.head?
  let name ← verb.payload
  let keys := ba.items.drop 1
  let cut ← match keys.getLast? with
    | none => some false
    | some back => back.completed.map (!·)
  let unparsed := if cut then addSize ba.absentBulks 1 else ba.absentBulks
  let empty : RedisDelCommand ε :=
    ⟨name.map toLower, unparsed, 0, fun k => ⟨pool.allocate k default, 0, .sendingPrefix, []⟩, [],
      [], 0, .idle, none, []⟩
  (if cut then keys.dropLast else keys).foldlM (pushKey locate pool) (buffer, empty)

def queryParsingComplete (c : RedisDelCommand ε) : Bool := c.unparsedBulks == 0

def queryRecvComplete (c : RedisDelCommand ε) : Bool := c.unparsedBulks == 0

def delPrefix (cmdName : Bytes) (keysCount : ℕ) : Bytes :=
  ascii "*" ++ dec (keysCount + 1) ++ ascii "\r\n$" ++ dec cmdName.length ++ crlf ++ cmdName ++ crlf

/-- One round of `ActivateWaitingSubquery`. -/
def activate (c : RedisDelCommand ε) (b : ℕ) : RedisDelCommand ε :=
  let c := { c with pendingSubqueries := c.pendingSubqueries ++ [b] }
  c.setBackend b ((c.backend b).writeQuery none (delPrefix c.cmdName (c.subquery b).keysCount))

def activateWaitingSubquery (c : RedisDelCommand ε) : RedisDelCommand ε :=
  { c.waitingSubqueries.foldl activate c with waitingSubqueries := [] }

def startWriteQuery (x : Ctx (RedisDelCommand ε)) : Ctx (RedisDelCommand ε) × Bool :=
  ({ x with cmd := activateWaitingSubquery x.cmd }, false)

def tryWriteReply (b : ℕ) (x : Ctx (RedisDelCommand ε)) : Ctx (RedisDelCommand ε) :=
  let (backend, r, effects) := Yarmproxy.tryWriteReply b (x.cmd.backend b) x.cmd.reply
  { x with
    cmd := { x.cmd.setBackend b backend with reply := r }
    effects := x.effects ++ effects }

/-- `pending_subqueries_.erase` and `Release` -/
def release (c : RedisDelCommand ε) (b : ℕ) : RedisDelCommand ε :=
  { c with
    pendingSubqueries := c.pendingSubqueries.filter (· ≠ b)
    released := c.released ++ [b] }

/-- The reply of `SetBackendReplyCount`, which takes the `int` as a `size_t`. -/
def replyCount (total : ℤ) : Bytes := ascii ":" ++ dec (intToSize total) ++ crlf

def replyOrWait (b : ℕ) (x : Ctx (RedisDelCommand ε)) : Ctx (RedisDelCommand ε) :=
  let k := (x.cmd.backend b).setReplyData (replyCount x.cmd.totalDelCount) true
  let x := { x with cmd := x.cmd.setBackend b k }
  if x.first then tryWriteReply b x
  else { x with cmd := { x.cmd with replyingBackend := some b } }

def startWriteReply (x : Ctx (RedisDelCommand ε)) : Ctx (RedisDelCommand ε) :=
  match x.cmd.replyingBackend with
  | some b => if x.cmd.queryRecvComplete then tryWriteReply b x else x
  | none => x

def onBackendRecoverableError (b : ℕ) (x : Ctx (RedisDelCommand ε)) : Ctx (RedisDelCommand ε) :=
  let x := { x with
    cmd := x.cmd.setBackend b (x.cmd.backend b).setReplyRecvComplete.setNoRecycle }
  if x.cmd.unparsedBulks = 0 ∧ x.cmd.pendingSubqueries.length = 1 then replyOrWait b x
  else { x with cmd := x.cmd.release b }

def parseReply (c : RedisDelCommand ε) (b : ℕ) : Option (RedisDelCommand ε × Bool) :=
  let k := c.backend b
  let unparsed := k.buffer.unparsedBytes
  if unparsed = 0 then none
  else
    let entry := k.buffer.unparsedData.rest
    if entry.getD 0 0 ≠ ch ':' then some (c, false)
    else match memchr entry (ch '\n') unparsed with
      | none => some (c, true)
      | some p => match stoi (entry.drop 1) with
        | none => some (c, false)
        | some n =>
          let k := { k.setReplyRecvComplete with buffer := k.buffer.updateParsedBytes (p + 1) }
          some ({ c.setBackend b k with totalDelCount := Int.bmod (c.totalDelCount + n) (2 ^ 32) },
            true)

/-- The part of `OnBackendReplyReceived` for a complete reply. -/
def replyReceived (b : ℕ) (x : Ctx (RedisDelCommand ε)) : Ctx (RedisDelCommand ε) :=
  if x.cmd.unparsedBulks = 0 ∧ x.cmd.pendingSubqueries.length = 1 then replyOrWait b x
  else
    let k := x.cmd.backend b
    if k.buffer.unparsedBytes ≠ 0 then x.emit .assertFailed
    else
      let k := { k with buffer := k.buffer.updateProcessedBytes k.buffer.unprocessedBytes }
      let x := { x with cmd := (x.cmd.setBackend b k).release b }
      if x.buffer.recycleLocked = false ∧ 0 < x.cmd.unparsedBulks then x.emit .tryReadMoreQuery
      else x

def onBackendReplyReceived (b : ℕ) (ec : ErrorCode) (x : Ctx (RedisDelCommand ε)) :
    Ctx (RedisDelCommand ε) :=
  if ec ≠ .success then x.emit .abort
  else match x.cmd.parseReply b with
    | none => x.emit .crash
    | some (c, ok) =>
      let x := { x with cmd := c }
      if !ok then x.emit .abort
      else if !(c.backend b).replyRecvComplete then
        { x with cmd := c.setBackend b (c.backend b).tryReadMoreReply }
      else replyReceived b x

def onWriteQueryFinished (b : ℕ) (ec : ErrorCode) (x : Ctx (RedisDelCommand ε)) :
    Ctx (RedisDelCommand ε) :=
  if ec ≠ .success then
    if ec = .connect then
      let x := onBackendRecoverableError b x
      let x := { x with buffer := x.buffer.decRecycleLock }
      if x.buffer.recycleLocked = false ∧ x.cmd.queryRecvComplete = false then
        x.emit .tryReadMoreQuery
      else x
    else x.emit .abort
  else
    let q := x.cmd.subquery b
    match q.phase with
    | .sendingPrefix =>
      match q.segments with
      | [] => x.emit .assertFailed
      | s :: _ =>
        { x with cmd := x.cmd.setSubquery b { q with
            phase := .sendingQueryData
            backend := q.backend.writeQuery s.at_ s.bytes } }
    | .sendingQueryData =>
      match q.segments.tail with
      | [] =>
        { x with
          buffer := x.buffer.decRecycleLock
          cmd := x.cmd.setSubquery b { q with
            segments := [], phase := .readingReply, backend := q.backend.readReply } }
      | s :: segments =>
        { x with cmd := x.cmd.setSubquery b { q with
            segments := s :: segments
            backend := q.backend.writeQuery s.at_ s.bytes } }
    | .readingReply => x.emit .assertFailed

/-- `Command::OnWriteReplyFinished`, which this class inherits. -/
def onWriteReplyFinished (b : ℕ) (ec : ErrorCode) (x : Ctx (RedisDelCommand ε)) :
    Ctx (RedisDelCommand ε) :=
  if ec ≠ .success then x.emit .abort
  else if !x.cmd.reply.isWriting then x.emit .assertFailed
  else
    let backend := { x.cmd.backend b with buffer := (x.cmd.backend b).buffer.decRecycleLock }
    let x := { x with
      cmd := { x.cmd.setBackend b backend with reply := { x.cmd.reply with isWriting := false } } }
    if backend.finished then
      if backend.buffer.recycleLocked || !x.cmd.queryRecvComplete then x.emit .assertFailed
      else x.emit .rotate
    else tryWriteReply b { x with cmd := x.cmd.setBackend b backend.tryReadMoreReply }

section Unparsed
variable [DecidableEq ε] (locate : Bytes → ε) (pool : Pool)

/-- The keys that `ProcessUnparsedPart` takes, and their bytes: an incomplete one is left. -/
def takeUnparsed (parsed : ℤ) (bulks : List Bulk) : Option (ℤ × List Bulk) :=
  match bulks.getLast? with
  | none => some (parsed, bulks)
  | some back => do
    if ← back.completed then some (parsed, bulks)
    else some (sizeToInt (subSize (intToSize parsed) (← back.totalSize)), bulks.dropLast)

/-- The end of `ProcessUnparsedPart`, for the new keys. -/
def activateUnparsed (parsed : ℤ) (bulks : List Bulk) (x : Ctx (RedisDelCommand ε)) :
    Option (Ctx (RedisDelCommand ε)) := do
  let c := { x.cmd with unparsedBulks := subSize x.cmd.unparsedBulks bulks.length }
  let (buffer, c) ← bulks.foldlM (pushKey locate pool) (x.buffer, c)
  let buffer := (buffer.updateProcessedBytes (intToSize parsed)).updateParsedBytes
    (intToSize parsed)
  some { x with buffer := buffer, cmd := activateWaitingSubquery c }

/-- `none` when a bulk reaches out of the buffer. -/
def processUnparsed (x : Ctx (RedisDelCommand ε)) : Option (Ctx (RedisDelCommand ε) × Bool) := do
  let (parsed, bulks) ← parseBulkItems x.buffer.unparsedData x.buffer.unparsedReceivedBytes
    x.cmd.unparsedBulks
  if parsed < 0 then some (x, false)
  else do
    let (parsed, bulks) ← takeUnparsed parsed bulks
    if bulks.isEmpty then
      some (if x.buffer.recycleLocked then x else x.emit .tryReadMoreQuery, true)
    else do
      let x ← activateUnparsed locate pool parsed bulks x
      some (x, true)

def processUnparsedPart (x : Ctx (RedisDelCommand ε)) : Ctx (RedisDelCommand ε) × Bool :=
  (processUnparsed locate pool x).getD (x.emit .crash, true)

def handlers : Handlers ε (RedisDelCommand ε) where
  backend c b := if b ∈ c.pendingSubqueries then some (c.backend b) else none
  setBackend := setBackend
  startWriteQuery := startWriteQuery
  continueWriteQuery x := (x.emit .assertFailed, false)
  parseUnparsedPart x := (x, true)
  processUnparsedPart := processUnparsedPart locate pool
  startWriteReply := startWriteReply
  onWriteQueryFinished := onWriteQueryFinished
  onBackendReplyReceived := onBackendReplyReceived
  onWriteReplyFinished
    | none, _, x => x.emit .crash
    | some b, ec, x => onWriteReplyFinished b ec x
  queryParsingComplete := queryParsingComplete
  queryRecvComplete := queryRecvComplete

end Unparsed
end RedisDelCommand
end Yarmproxy

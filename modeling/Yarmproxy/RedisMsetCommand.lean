import Yarmproxy.MemcGetCommand
import Yarmproxy.SimpleReply

/-! # `RedisMsetCommand`

A Redis `MSET` whose pairs are regrouped by endpoint, batch by batch as the request arrives.
Subqueries are numbered in the order of their allocation; a number is never used twice. -/
namespace Yarmproxy

variable {ε : Type}

/-- The segment list with `bytes` more at `data`: the last segment grows when they follow it. -/
def growSegments (segments : List Segment) (data : Ptr) (bytes : ℕ) : List Segment :=
  match segments.getLast? with
  | some ⟨some start, written⟩ =>
    if start + written.length = data.off then
      segments.dropLast ++ [⟨some start, Ptr.bytes ⟨data.mem, start⟩ (written.length + bytes)⟩]
    else segments ++ [⟨some data.off, data.bytes bytes⟩]
  | _ => segments ++ [⟨some data.off, data.bytes bytes⟩]

/-- The sum of two `int` sizes, used as a `size_t`. -/
def presentSum (a b : ℤ) : ℕ := intToSize (Int.bmod (a + b) (2 ^ 32))

/-- The keys and values at `i` and `i + 1`; an odd bulk at the end is left out. -/
def bulkPairs : List Bulk → List (Bulk × Bulk)
  | key :: value :: bulks => (key, value) :: bulkPairs bulks
  | _ => []

inductive MsetPhase where
  | initSendQuery | sendingMoreQuery | readingMoreQuery | readingReply
  deriving DecidableEq, Repr

structure MsetSubquery (ε : Type) where
  backend : BackendConn ε
  keysCount : ℕ
  phase : MsetPhase
  queryRecvComplete : Bool
  segments : List Segment
  deriving DecidableEq, Repr

structure RedisMsetCommand (ε : Type) where
  unparsedBulks : ℕ
  /-- the number of subqueries made so far -/
  count : ℕ
  subquery : ℕ → MsetSubquery ε
  waitingSubqueries : List ℕ
  pendingSubqueries : List ℕ
  tailQuery : Option ℕ
  reply : ReplyState
  replyingBackend : Option ℕ
  /-- the subqueries whose backend has been handed back to the pool, in order -/
  released : List ℕ

namespace RedisMsetCommand

def backend (c : RedisMsetCommand ε) (b : ℕ) : BackendConn ε := (c.subquery b).backend

def setSubquery (c : RedisMsetCommand ε) (b : ℕ) (s : MsetSubquery ε) : RedisMsetCommand ε :=
  { c with subquery := Function.update c.subquery b s }

def setBackend (c : RedisMsetCommand ε) (b : ℕ) (backend : BackendConn ε) : RedisMsetCommand ε :=
  c.setSubquery b { c.subquery b with backend := backend }

def pushSubquery [DecidableEq ε] (pool : Pool) (ep : ε) (data : Ptr) (bytes : ℕ)
    (s : ReadBuffer × RedisMsetCommand ε) : ReadBuffer × RedisMsetCommand ε :=
  let (buffer, c) := s
  match c.waitingSubqueries.find? fun b => (c.backend b).remoteEndpoint = ep with
  | none =>
    (buffer.incRecycleLock,
      { c.setSubquery c.count ⟨pool.allocate c.count ep, 1, .initSendQuery, false,
          [⟨some data.off, data.bytes bytes⟩]⟩ with
        count := c.count + 1
        waitingSubqueries := c.waitingSubqueries ++ [c.count]
        tailQuery := some c.count })
  | some b =>
    let q := c.subquery b
    (buffer,
      { c.setSubquery b { q with
          keysCount := q.keysCount + 1
          segments := growSegments q.segments data bytes } with
        tailQuery := some b })

/-- One round of the loops over the keys; `none` when the key reaches out of the buffer. -/
def pushPair [DecidableEq ε] (locate : Bytes → ε) (pool : Pool)
    (s : ReadBuffer × RedisMsetCommand ε) (pair : Bulk × Bulk) :
    Option (ReadBuffer × RedisMsetCommand ε) := do
  let key ← pair.1.payload
  some (pushSubquery pool (locate key) pair.1.rawData
    (presentSum pair.1.presentSize pair.2.presentSize) s)

def new [DecidableEq ε] [Inhabited ε] (locate : Bytes → ε) (pool : Pool) (buffer : ReadBuffer)
    (ba : BulkArray) : Option (ReadBuffer × RedisMsetCommand ε) :=
  let absent := ba.absentBulks
  let empty : RedisMsetCommand ε :=
    ⟨addSize absent (absent % 2), 0,
      fun k => ⟨pool.allocate k default, 0, .initSendQuery, false, []⟩, [], [], none, .idle, none,
        []⟩
  (bulkPairs (ba.items.drop 1)).foldlM (pushPair locate pool) (buffer, empty)

def queryParsingComplete (c : RedisMsetCommand ε) : Bool := c.unparsedBulks == 0

def tailComplete (c : RedisMsetCommand ε) : Bool :=
  c.tailQuery.any fun b => (c.subquery b).queryRecvComplete

def queryRecvComplete (c : RedisMsetCommand ε) : Bool := c.tailComplete && c.queryParsingComplete

def setComplete (c : RedisMsetCommand ε) (b : ℕ) : RedisMsetCommand ε :=
  c.setSubquery b { c.subquery b with queryRecvComplete := true }

/-- `if (parsed_unreceived_bytes() == 0) tail_query_->query_recv_complete_ = true` -/
def checkTail (c : RedisMsetCommand ε) (buffer : ReadBuffer) (b : ℕ) : RedisMsetCommand ε :=
  if buffer.parsedUnreceivedBytes = 0 then c.setComplete b else c

def msetPrefix (keysCount : ℕ) : Bytes :=
  ascii "*" ++ dec (keysCount * 2 + 1) ++ ascii "\r\n$4\r\nmset\r\n"

def activate (buffer : ReadBuffer) (c : RedisMsetCommand ε) (b : ℕ) : RedisMsetCommand ε :=
  let c := { c with pendingSubqueries := c.pendingSubqueries ++ [b] }
  let c := if c.tailQuery ≠ some b ∨ buffer.parsedUnreceivedBytes = 0 then c.setComplete b else c
  c.setBackend b ((c.backend b).writeQuery none (msetPrefix (c.subquery b).keysCount))

def activateWaitingSubquery (buffer : ReadBuffer) (c : RedisMsetCommand ε) : RedisMsetCommand ε :=
  { c.waitingSubqueries.foldl (activate buffer) c with waitingSubqueries := [] }

def startWriteQuery (x : Ctx (RedisMsetCommand ε)) : Ctx (RedisMsetCommand ε) × Bool :=
  match x.cmd.tailQuery with
  | none => (x.emit .assertFailed, false)
  | some b =>
    ({ x with cmd := activateWaitingSubquery x.buffer (x.cmd.checkTail x.buffer b) }, false)

def tryWriteReply (b : ℕ) (x : Ctx (RedisMsetCommand ε)) : Ctx (RedisMsetCommand ε) :=
  let (backend, r, effects) := Yarmproxy.tryWriteReply b (x.cmd.backend b) x.cmd.reply
  { x with
    cmd := { x.cmd.setBackend b backend with reply := r }
    effects := x.effects ++ effects }

def release (c : RedisMsetCommand ε) (b : ℕ) : RedisMsetCommand ε :=
  { c with
    pendingSubqueries := c.pendingSubqueries.filter (· ≠ b)
    released := c.released ++ [b] }

def replyOrWait (b : ℕ) (x : Ctx (RedisMsetCommand ε)) : Ctx (RedisMsetCommand ε) :=
  if x.first then tryWriteReply b x
  else { x with cmd := { x.cmd with replyingBackend := some b } }

def continueWriteQuery (x : Ctx (RedisMsetCommand ε)) : Ctx (RedisMsetCommand ε) × Bool :=
  match x.cmd.tailQuery with
  | none => (x.emit .assertFailed, false)
  | some b =>
    let x := { x with cmd := x.cmd.checkTail x.buffer b }
    if (x.cmd.backend b).error then
      if !(x.cmd.subquery b).queryRecvComplete then (x, true)
      else if x.cmd.unparsedBulks = 0 ∧ x.cmd.waitingSubqueries.length = 0 ∧
          x.cmd.pendingSubqueries.length = 1 then (replyOrWait b x, false)
      else ({ x with cmd := x.cmd.release b }, false)
    else if (x.cmd.subquery b).phase ≠ .readingMoreQuery then (x.emit .assertFailed, false)
    else
      let buffer := x.buffer.incRecycleLock
      let backend := (x.cmd.backend b).writeQuery (some buffer.processedOffset)
        (buffer.unprocessedData.bytes buffer.unprocessedBytes)
      ({ x with buffer := buffer, cmd := x.cmd.setBackend b backend }, false)

def startWriteReply (x : Ctx (RedisMsetCommand ε)) : Ctx (RedisMsetCommand ε) :=
  match x.cmd.replyingBackend with
  | some b => if x.cmd.queryRecvComplete then tryWriteReply b x else x
  | none => x

def onBackendRecoverableError (b : ℕ) (ec : ErrorCode) (x : Ctx (RedisMsetCommand ε)) :
    Ctx (RedisMsetCommand ε) :=
  if x.cmd.reply.hasWrittenSome then x.emit .assertFailed
  else
    let x :=
      { x with cmd := x.cmd.setBackend b ((x.cmd.backend b).substitute (redisErrorReply ec)) }
    if (x.cmd.subquery b).queryRecvComplete then
      if x.cmd.unparsedBulks = 0 ∧ x.cmd.pendingSubqueries.length = 1 then replyOrWait b x
      else { x with cmd := x.cmd.release b }
    else x

/-- The part of `OnBackendReplyReceived` for a complete reply. -/
def replyReceived (b : ℕ) (x : Ctx (RedisMsetCommand ε)) : Ctx (RedisMsetCommand ε) :=
  if x.cmd.waitingSubqueries.length ≠ 0 then x.emit .assertFailed
  else if x.cmd.unparsedBulks = 0 ∧ x.cmd.pendingSubqueries.length = 1 then replyOrWait b x
  else
    let k := x.cmd.backend b
    if k.buffer.unparsedBytes ≠ 0 then x.emit .assertFailed
    else
      let k := { k with buffer := k.buffer.updateProcessedBytes k.buffer.unprocessedBytes }
      let x := { x with cmd := (x.cmd.setBackend b k).release b }
      if 0 < x.cmd.unparsedBulks ∧ x.buffer.recycleLocked = false then x.emit .tryReadMoreQuery
      else x

def onBackendReplyReceived (b : ℕ) (ec : ErrorCode) (x : Ctx (RedisMsetCommand ε)) :
    Ctx (RedisMsetCommand ε) :=
  if ec ≠ .success then x.emit .abort
  else match (x.cmd.backend b).parseReply .redis with
    | none => x.emit .crash
    | some (k, ok) =>
      let x := { x with cmd := x.cmd.setBackend b k }
      if !ok then x.emit .abort
      else if !k.replyRecvComplete then { x with cmd := x.cmd.setBackend b k.tryReadMoreReply }
      else replyReceived b x

/-- `if (!query_recv_complete() && !recycle_locked()) TryReadMoreQuery()` -/
def readMore (x : Ctx (RedisMsetCommand ε)) : Ctx (RedisMsetCommand ε) :=
  if x.cmd.queryRecvComplete = false ∧ x.buffer.recycleLocked = false then x.emit .tryReadMoreQuery
  else x

/-- The end of `OnWriteQueryFinished`, when the received part of the query has been sent. -/
def querySent (b : ℕ) (x : Ctx (RedisMsetCommand ε)) : Ctx (RedisMsetCommand ε) :=
  let q := x.cmd.subquery b
  readMore { x with
    buffer := x.buffer.decRecycleLock
    cmd := if q.queryRecvComplete then
        x.cmd.setSubquery b { q with phase := .readingReply, backend := q.backend.readReply }
      else x.cmd }

def onWriteQueryFinished (b : ℕ) (ec : ErrorCode) (x : Ctx (RedisMsetCommand ε)) :
    Ctx (RedisMsetCommand ε) :=
  if ec ≠ .success then
    if ec = .connect then
      let x := onBackendRecoverableError b ec x
      readMore { x with buffer := x.buffer.decRecycleLock }
    else x.emit .abort
  else
    let q := x.cmd.subquery b
    match q.phase with
    | .initSendQuery =>
      match q.segments with
      | [] => x.emit .crash
      | s :: _ =>
        { x with cmd := x.cmd.setSubquery b { q with
            phase := .sendingMoreQuery
            backend := q.backend.writeQuery s.at_ s.bytes } }
    | .sendingMoreQuery =>
      match q.segments.tail with
      | [] =>
        let phase := if q.queryRecvComplete then q.phase else .readingMoreQuery
        querySent b { x with cmd := x.cmd.setSubquery b { q with segments := [], phase := phase } }
      | s :: segments =>
        { x with cmd := x.cmd.setSubquery b { q with
            segments := s :: segments
            backend := q.backend.writeQuery s.at_ s.bytes } }
    | .readingMoreQuery => querySent b x
    | .readingReply => x.emit .assertFailed

/-- `Command::OnWriteReplyFinished`, which this class inherits. -/
def onWriteReplyFinished (b : ℕ) (ec : ErrorCode) (x : Ctx (RedisMsetCommand ε)) :
    Ctx (RedisMsetCommand ε) :=
  if ec ≠ .success then x.emit .abort
  else if !x.cmd.reply.isWriting then x.emit .assertFailed
  else
    let backend := { x.cmd.backend b with buffer := (x.cmd.backend b).buffer.decRecycleLock }
    let x := { x with
      cmd := { x.cmd.setBackend b backend with reply := { x.cmd.reply with isWriting := false } } }
    if backend.finished then
      if backend.buffer.recycleLocked || !x.cmd.queryRecvComplete then x.emit .assertFailed
      else x.emit .rotate
    else tryWriteReply b { x with cmd := x.cmd.setBackend b backend.tryReadMoreReply }

section Unparsed
variable [DecidableEq ε] (locate : Bytes → ε) (pool : Pool)

/-- The bulks that `ProcessUnparsedPart` takes, and their bytes: a key is left for later when
its value has no header yet. -/
def takeUnparsed (parsed : ℤ) (bulks : List Bulk) : Option (ℤ × List Bulk) :=
  if bulks.length % 2 = 1 then do
    let back ← bulks.getLast?
    let total ← back.totalSize
    some (sizeToInt (subSize (intToSize parsed) total), bulks.dropLast)
  else some (parsed, bulks)

/-- The end of `ProcessUnparsedPart`, for the new bulks. -/
def activateUnparsed (parsed : ℤ) (bulks : List Bulk) (x : Ctx (RedisMsetCommand ε)) :
    Option (Ctx (RedisMsetCommand ε)) := do
  let (buffer, c) ← (bulkPairs bulks).foldlM (pushPair locate pool) (x.buffer, x.cmd)
  let back ← bulks.getLast?
  let total ← back.totalSize
  let toProcess := addSize (subSize (intToSize parsed) total) (intToSize back.presentSize)
  let buffer := (buffer.updateProcessedBytes toProcess).updateParsedBytes (intToSize parsed)
  let c := { c with unparsedBulks := subSize c.unparsedBulks bulks.length }
  some { x with buffer := buffer, cmd := activateWaitingSubquery buffer c }

/-- `none` when a bulk reaches out of the buffer. -/
def processUnparsed (x : Ctx (RedisMsetCommand ε)) : Option (Ctx (RedisMsetCommand ε) × Bool) := do
  let (parsed, bulks) ← parseBulkItems x.buffer.unparsedData x.buffer.unparsedReceivedBytes
    x.cmd.unparsedBulks
  if parsed < 0 then some (x, false)
  else do
    let (parsed, bulks) ← takeUnparsed parsed bulks
    if bulks.isEmpty then
      some (if x.buffer.recycleLocked then x else x.emit .tryReadMoreQuery, true)
    else do
      let x ← activateUnparsed locate pool parsed bulks x
      some (x, true)

def processUnparsedPart (x : Ctx (RedisMsetCommand ε)) : Ctx (RedisMsetCommand ε) × Bool :=
  (processUnparsed locate pool x).getD (x.emit .crash, true)

def handlers : Handlers ε (RedisMsetCommand ε) where
  backend c b := if b ∈ c.pendingSubqueries then some (c.backend b) else none
  setBackend := setBackend
  startWriteQuery := startWriteQuery
  continueWriteQuery := continueWriteQuery
  parseUnparsedPart x := (x, true)
  processUnparsedPart := processUnparsedPart locate pool
  startWriteReply := startWriteReply
  onWriteQueryFinished := onWriteQueryFinished
  onBackendReplyReceived := onBackendReplyReceived
  onWriteReplyFinished
    | none, _, x => x.emit .crash
    | some b, ec, x => onWriteReplyFinished b ec x
  queryParsingComplete := queryParsingComplete
  queryRecvComplete := queryRecvComplete

end Unparsed
end RedisMsetCommand
end Yarmproxy

import Yarmproxy.SimpleReply
import Yarmproxy.Command

/-! # Commands with one backend

`RedisBasicCommand`, `RedisSetCommand`, `MemcBasicCommand` and `MemcSetCommand` share the
handlers of the base class; they differ in how they recognise the end of their request. -/
namespace Yarmproxy

inductive SingleKind where
  | redisBasic | redisSet | memcBasic | memcSet
  deriving DecidableEq, Repr

def SingleKind.protocol : SingleKind → ProtocolType
  | .redisBasic | .redisSet => .redis
  | .memcBasic | .memcSet => .memcached

structure SingleCommand (ε : Type) where
  kind : SingleKind
  /-- `unparsed_bulks_` of a set-like Redis command -/
  unparsedBulks : ℕ
  /-- `query_recv_complete_` of the two set-like classes -/
  queryReceived : Bool
  /-- `replying_backend_` -/
  backend : BackendConn ε
  reply : ReplyState
  deriving DecidableEq, Repr

/-- The loop of `RedisSetCommand::ParseUnparsedPart`: the buffer, the bulks left and the
result; `none` when the size of a bulk is looked up outside the buffer. -/
def parseUnparsedLoop : ℕ → ReadBuffer → Option (ReadBuffer × ℕ × Bool)
  | 0, buffer => some (buffer, 0, true)
  | n + 1, buffer =>
    if 0 < buffer.unparsedReceivedBytes then
      let bulk := Bulk.parse buffer.unparsedData buffer.unparsedReceivedBytes
      if bulk.presentSize < 0 then some (buffer, n + 1, false)
      else if bulk.presentSize = 0 then some (buffer, n + 1, true)
      else do
        let total ← bulk.totalSize
        parseUnparsedLoop n (buffer.updateParsedBytes total)
    else some (buffer, n + 1, true)

namespace SingleCommand
variable {ε : Type}

def queryParsingComplete (c : SingleCommand ε) : Bool :=
  match c.kind with
  | .redisSet => c.unparsedBulks == 0
  | _ => true

def queryRecvComplete (c : SingleCommand ε) : Bool :=
  match c.kind with
  | .redisBasic | .memcBasic => true
  | .redisSet | .memcSet => c.queryReceived

def checkQueryRecvComplete (c : SingleCommand ε) (buffer : ReadBuffer) : SingleCommand ε :=
  match c.kind with
  | .redisBasic | .memcBasic => c
  | .redisSet =>
    if buffer.parsedUnreceivedBytes = 0 ∧ c.unparsedBulks = 0 then { c with queryReceived := true }
    else c
  | .memcSet =>
    if buffer.parsedUnreceivedBytes = 0 then { c with queryReceived := true } else c

def tryWriteReply (x : Ctx (SingleCommand ε)) : Ctx (SingleCommand ε) :=
  let (c, r, effects) := Yarmproxy.tryWriteReply 0 x.cmd.backend x.cmd.reply
  { x with cmd := { x.cmd with backend := c, reply := r }, effects := x.effects ++ effects }

/-- `inc_recycle_lock()` and `WriteQuery` of the unprocessed bytes. -/
def writeUnprocessed (x : Ctx (SingleCommand ε)) : Ctx (SingleCommand ε) :=
  let buffer := x.buffer.incRecycleLock
  let backend := x.cmd.backend.writeQuery (some buffer.processedOffset)
    (buffer.unprocessedData.bytes buffer.unprocessedBytes)
  { x with buffer := buffer, cmd := { x.cmd with backend := backend } }

def startWriteQuery (x : Ctx (SingleCommand ε)) : Ctx (SingleCommand ε) × Bool :=
  (writeUnprocessed { x with cmd := x.cmd.checkQueryRecvComplete x.buffer }, false)

def continueWriteQuery (x : Ctx (SingleCommand ε)) : Ctx (SingleCommand ε) × Bool :=
  match x.cmd.kind with
  | .redisBasic | .memcBasic => (x.emit .assertFailed, false)
  | .redisSet | .memcSet =>
    let x := { x with cmd := x.cmd.checkQueryRecvComplete x.buffer }
    if x.cmd.backend.error then
      if !x.cmd.queryRecvComplete then (x, true)
      else if x.first then (tryWriteReply x, false)
      else (x, false)
    else (writeUnprocessed x, false)

def parseUnparsedPart (x : Ctx (SingleCommand ε)) : Ctx (SingleCommand ε) × Bool :=
  match x.cmd.kind with
  | .redisSet =>
    match parseUnparsedLoop x.cmd.unparsedBulks x.buffer with
    | none => (x.emit .crash, true)
    | some (buffer, n, ok) =>
      ({ x with buffer := buffer, cmd := { x.cmd with unparsedBulks := n } }, ok)
  | _ => (x, true)

def startWriteReply (x : Ctx (SingleCommand ε)) : Ctx (SingleCommand ε) :=
  if x.cmd.queryRecvComplete then tryWriteReply x else x

def onBackendRecoverableError (ec : ErrorCode) (x : Ctx (SingleCommand ε)) :
    Ctx (SingleCommand ε) :=
  let backend := x.cmd.backend.substitute (errorReply x.cmd.kind.protocol ec)
  let x := { x with cmd := { x.cmd with backend := backend } }
  if x.cmd.queryRecvComplete then
    if x.first then tryWriteReply x else x
  else if !x.buffer.recycleLocked then x.emit .tryReadMoreQuery
  else x

def onWriteQueryFinished (ec : ErrorCode) (x : Ctx (SingleCommand ε)) : Ctx (SingleCommand ε) :=
  if ec ≠ .success then
    if x.cmd.reply.hasWrittenSome then x.emit .abort
    else onBackendRecoverableError ec { x with buffer := x.buffer.decRecycleLock }
  else
    let x := { x with buffer := x.buffer.decRecycleLock }
    if x.cmd.queryRecvComplete then
      { x with cmd := { x.cmd with backend := x.cmd.backend.readReply } }
    else if !x.buffer.recycleLocked then x.emit .tryReadMoreQuery
    else x

/-- The part of `OnBackendReplyReceived` behind the error checks. -/
def forwardReply (x : Ctx (SingleCommand ε)) : Ctx (SingleCommand ε) :=
  let x := if x.first then tryWriteReply x else x
  { x with cmd := { x.cmd with backend := x.cmd.backend.tryReadMoreReply } }

def onReplyError (ec : ErrorCode) (x : Ctx (SingleCommand ε)) : Ctx (SingleCommand ε) :=
  if x.cmd.reply.hasWrittenSome then x.emit .abort else onBackendRecoverableError ec x

def onBackendReplyReceived (ec : ErrorCode) (x : Ctx (SingleCommand ε)) :
    Ctx (SingleCommand ε) :=
  if ec ≠ .success then onReplyError ec x
  else match x.cmd.backend.parseReply x.cmd.kind.protocol with
    | none => x.emit .crash
    | some (c, ok) =>
      let x := { x with cmd := { x.cmd with backend := c } }
      if ok then forwardReply x else onReplyError .protocol x

def onWriteReplyFinished (ec : ErrorCode) (x : Ctx (SingleCommand ε)) : Ctx (SingleCommand ε) :=
  if ec ≠ .success then x.emit .abort
  else if !x.cmd.reply.isWriting then x.emit .assertFailed
  else
    let backend := { x.cmd.backend with buffer := x.cmd.backend.buffer.decRecycleLock }
    let x := { x with
      cmd := { x.cmd with backend := backend, reply := { x.cmd.reply with isWriting := false } } }
    if x.cmd.backend.finished then
      if x.cmd.backend.buffer.recycleLocked || !x.cmd.queryRecvComplete then x.emit .assertFailed
      else x.emit .rotate
    else
      tryWriteReply { x with cmd := { x.cmd with backend := x.cmd.backend.tryReadMoreReply } }

def handlers : Handlers ε (SingleCommand ε) where
  backend c b := if b = 0 then some c.backend else none
  setBackend c _ backend := { c with backend := backend }
  startWriteQuery := startWriteQuery
  continueWriteQuery := continueWriteQuery
  parseUnparsedPart := parseUnparsedPart
  processUnparsedPart x := (x, true)
  startWriteReply := startWriteReply
  onWriteQueryFinished _ := onWriteQueryFinished
  onBackendReplyReceived _ := onBackendReplyReceived
  onWriteReplyFinished _ := onWriteReplyFinished
  queryParsingComplete := queryParsingComplete
  queryRecvComplete := queryRecvComplete

/-- The command as its constructor leaves it. -/
def new (kind : SingleKind) (unparsedBulks : ℕ) (backend : BackendConn ε) : SingleCommand ε :=
  ⟨kind, unparsedBulks, false, backend, .idle⟩

end SingleCommand
end Yarmproxy

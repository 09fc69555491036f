import Yarmproxy.Command
import Mathlib.Logic.Function.Basic

/-! # `MemcGetCommand`

A memcached `get` with its keys spread over several backends. Backends are numbered in the
order in which the constructor first meets their endpoints. -/
namespace Yarmproxy

variable {ε : Type}

structure Segment where
  at_ : Option ℕ
  bytes : Bytes
  deriving DecidableEq, Repr

structure MemcSubquery (ε : Type) where
  backend : BackendConn ε
  segments : List Segment
  deriving DecidableEq, Repr

structure MemcGetCommand (ε : Type) where
  /-- the size of `subqueries_` -/
  count : ℕ
  subquery : ℕ → MemcSubquery ε
  reply : ReplyState
  replyingBackend : Option ℕ
  waitingReplyQueue : List ℕ
  lastBackend : Option ℕ
  completedBackends : ℕ
  /-- `received_reply_backends_`, kept in the order of insertion -/
  receivedReplyBackends : List ℕ

/-- What the pool hands out at the `k`-th allocation: the buffer memory and whether the
connection is still open from an earlier use. -/
abbrev Pool := ℕ → Bytes × Bool

def Pool.allocate (pool : Pool) (k : ℕ) (ep : ε) : BackendConn ε :=
  .allocated ep (pool k).1 (pool k).2

namespace MemcGetCommand

def backend (c : MemcGetCommand ε) (b : ℕ) : BackendConn ε := (c.subquery b).backend

def setSubquery (c : MemcGetCommand ε) (b : ℕ) (s : MemcSubquery ε) : MemcGetCommand ε :=
  { c with subquery := Function.update c.subquery b s }

def setBackend (c : MemcGetCommand ε) (b : ℕ) (backend : BackendConn ε) : MemcGetCommand ε :=
  c.setSubquery b { c.subquery b with backend := backend }

/-- The key loop of the constructor: the offsets `p` and `q` around each key. The inner scan
looks for a blank or a carriage return, if need be beyond the line. -/
def scanKeys (m : Bytes) (size : ℕ) : ℕ → ℕ → Option (List (ℕ × ℕ))
  | 0, _ => some []
  | fuel + 1, p =>
    if p < size - 2 then do
      let n ← (m.drop p).findIdx? fun c => c == ch ' ' || c == ch '\r'
      let keys ← scanKeys m size fuel (p + n + 1)
      some ((p, p + n) :: keys)
    else some []

def pushKey [DecidableEq ε] (locate : Bytes → ε) (pool : Pool) (data : Ptr)
    (s : ReadBuffer × MemcGetCommand ε) (key : ℕ × ℕ) : ReadBuffer × MemcGetCommand ε :=
  let (buffer, c) := s
  let (p, q) := key
  let ep := locate ((data.rest.drop p).take (q - p))
  let segment : Segment := ⟨some (data.off + p - 1), (data.rest.drop (p - 1)).take (1 + q - p)⟩
  match (List.range c.count).find? fun b => (c.backend b).remoteEndpoint = ep with
  | some b =>
    (buffer, c.setSubquery b { c.subquery b with segments := (c.subquery b).segments ++ [segment] })
  | none =>
    (buffer.incRecycleLock,
      { c.setSubquery c.count ⟨pool.allocate c.count ep, [⟨none, ascii "get"⟩, segment]⟩ with
        count := c.count + 1 })

def closeSegments (c : MemcGetCommand ε) : MemcGetCommand ε :=
  { c with subquery := fun b =>
      { c.subquery b with segments := (c.subquery b).segments ++ [⟨none, crlf⟩] } }

/-- The constructor; `none` when the key scan leaves the buffer. -/
def new [DecidableEq ε] [Inhabited ε] (locate : Bytes → ε) (pool : Pool) (buffer : ReadBuffer)
    (data : Ptr) (size : ℕ) : Option (ReadBuffer × MemcGetCommand ε) := do
  let keys ← scanKeys data.rest size size 4
  let empty : MemcGetCommand ε :=
    ⟨0, fun k => ⟨pool.allocate k default, []⟩, .idle, none, [], none, 0, []⟩
  let (buffer, c) := keys.foldl (pushKey locate pool data) (buffer, empty)
  some (buffer, c.closeSegments)

/-- `WriteQuery` of the first segment of backend `b`. -/
def writeFront (c : MemcGetCommand ε) (b : ℕ) : MemcGetCommand ε :=
  match (c.subquery b).segments with
  | [] => c
  | s :: _ => c.setBackend b ((c.backend b).writeQuery s.at_ s.bytes)

def startWriteQuery (x : Ctx (MemcGetCommand ε)) : Ctx (MemcGetCommand ε) × Bool :=
  ({ x with cmd := (List.range x.cmd.count).foldl writeFront x.cmd }, false)

def tryMarkLastBackend (c : MemcGetCommand ε) (b : ℕ) : MemcGetCommand ε :=
  if b ∈ c.receivedReplyBackends then c
  else
    let received := c.receivedReplyBackends ++ [b]
    { c with
      receivedReplyBackends := received
      lastBackend := if received.length = c.count then some b else c.lastBackend }

def tryWriteReply (b : ℕ) (x : Ctx (MemcGetCommand ε)) : Ctx (MemcGetCommand ε) :=
  let (backend, r, effects) := Yarmproxy.tryWriteReply b (x.cmd.backend b) x.cmd.reply
  { x with
    cmd := { x.cmd.setBackend b backend with reply := r }
    effects := x.effects ++ effects }

/-- `RotateReplyingBackend` and `NextBackendStartReply` call each other while the backends
at the front of the queue are finished; `queue` is what is left of it. -/
def nextBackendStartReply : List ℕ → Ctx (MemcGetCommand ε) → Ctx (MemcGetCommand ε)
  | [], x => { x with cmd := { x.cmd with waitingReplyQueue := [], replyingBackend := none } }
  | b :: queue, x =>
    let x := { x with cmd := { x.cmd with waitingReplyQueue := queue } }
    if (x.cmd.backend b).finished then
      let x := { x with cmd := { x.cmd with completedBackends := x.cmd.completedBackends + 1 } }
      if x.cmd.completedBackends < x.cmd.count then nextBackendStartReply queue x
      else x.emit .rotate
    else
      let x := tryWriteReply b x
      { x with cmd := { x.cmd with replyingBackend := some b } }

def rotateReplyingBackend (x : Ctx (MemcGetCommand ε)) : Ctx (MemcGetCommand ε) :=
  let x := { x with cmd := { x.cmd with completedBackends := x.cmd.completedBackends + 1 } }
  if x.cmd.completedBackends < x.cmd.count then
    nextBackendStartReply x.cmd.waitingReplyQueue x
  else x.emit .rotate

def startWriteReply (x : Ctx (MemcGetCommand ε)) : Ctx (MemcGetCommand ε) :=
  nextBackendStartReply x.cmd.waitingReplyQueue x

/-- `TryActivateReplyingBackend`, asked only of the first command. -/
def activates (x : Ctx (MemcGetCommand ε)) (b : ℕ) : Bool :=
  x.first && (x.cmd.replyingBackend == none || x.cmd.replyingBackend == some b)

def backendReadyToReply (b : ℕ) (x : Ctx (MemcGetCommand ε)) : Ctx (MemcGetCommand ε) :=
  if activates x b then
    let x := { x with cmd := { x.cmd with replyingBackend := some b } }
    if (x.cmd.backend b).finished then rotateReplyingBackend x else tryWriteReply b x
  else if b ∈ x.cmd.waitingReplyQueue then x
  else
    { x with cmd := { x.cmd with waitingReplyQueue := x.cmd.waitingReplyQueue ++ [b] } }

def onBackendRecoverableError (b : ℕ) (ec : ErrorCode) (x : Ctx (MemcGetCommand ε)) :
    Ctx (MemcGetCommand ε) :=
  let c := x.cmd.tryMarkLastBackend b
  let backend :=
    if some b = c.lastBackend then
      (c.backend b).setReplyData (if 1 < c.count then ascii "END\r\n" else memcErrorReply ec) true
    else c.backend b
  backendReadyToReply b
    { x with cmd := c.setBackend b backend.setReplyRecvComplete.setNoRecycle }

def onWriteQueryFinished (b : ℕ) (ec : ErrorCode) (x : Ctx (MemcGetCommand ε)) :
    Ctx (MemcGetCommand ε) :=
  if ec ≠ .success then
    if ec = .connect then (onBackendRecoverableError b ec x).emit .decRecycleLock
    else x.emit .abort
  else
    let segments := (x.cmd.subquery b).segments.tail
    let c := x.cmd.setSubquery b { x.cmd.subquery b with segments := segments }
    if segments ≠ [] then { x with cmd := c.writeFront b }
    else
      { x with
        buffer := x.buffer.decRecycleLock
        cmd := c.setBackend b (c.backend b).readReply }

/-- The number behind the second blank that `ParseReplyBodySize` meets in `line`, which
starts at offset `start` of `m`; `none` when there are fewer than two. -/
def secondField (m line : Bytes) (start : ℕ) : Option (Option ℕ) := do
  let i ← line.findIdx? (· == ch ' ')
  let j ← (line.drop (i + 1)).findIdx? (· == ch ' ')
  some ((stoi (m.drop (start + i + 1 + j + 1))).map intToSize)

/-- `ParseReplyBodySize`: the scan starts behind `sizeof("VALUE ")` characters, the
terminating zero counted. If that is already behind `end_` the scan is not stopped there.
`none` stands for a scan that leaves the buffer and for an exception of `stoi`. -/
def parseReplyBodySize (m : Bytes) (end_ : ℕ) : Option ℕ :=
  if end_ < 7 then (secondField m (m.drop 7) 7).join
  else (secondField m ((m.take end_).drop 7) 7).getD (some 0)

/-- The loop of `ParseReply` on backend `c`; `last` says whether its `END` is kept. Each
round consumes input, so `fuel` bounds the rounds by the bytes there are; `none` stands for
running on, for a scan beyond the buffer and for an uncaught exception. -/
def parseReplyLoop (last : Bool) : ℕ → BackendConn ε → Option (BackendConn ε × Bool)
  | 0, c => if c.buffer.unparsedBytes = 0 then some (c, true) else none
  | fuel + 1, c =>
    let unparsed := c.buffer.unparsedBytes
    if unparsed = 0 then some (c, true)
    else
      let entry := c.buffer.unparsedData.rest
      match memchr entry (ch '\n') unparsed with
      | none => some (c, true)
      | some p =>
        if entry.getD 0 0 = ch 'V' then do
          let body ← parseReplyBodySize entry p
          let buffer := c.buffer.updateParsedBytes (addSize (p + 1 + 2) body)
          parseReplyLoop last fuel { c with buffer := buffer }
        else if entry.take 5 = ascii "END\r\n" ∧ unparsed = 5 then
          let c := c.setReplyRecvComplete
          some ({ c with buffer := if last then c.buffer.updateParsedBytes 5
                          else c.buffer.cutReceivedTail 5 }, true)
        else some (c, false)

def parseReply (c : MemcGetCommand ε) (b : ℕ) : Option (BackendConn ε × Bool) :=
  parseReplyLoop (c.lastBackend == some b) (c.backend b).buffer.unparsedBytes (c.backend b)

def onReplyError (b : ℕ) (ec : ErrorCode) (x : Ctx (MemcGetCommand ε)) :
    Ctx (MemcGetCommand ε) :=
  if (x.cmd.backend b).hasReadSomeReply then x.emit .abort else onBackendRecoverableError b ec x

def onBackendReplyReceived (b : ℕ) (ec : ErrorCode) (x : Ctx (MemcGetCommand ε)) :
    Ctx (MemcGetCommand ε) :=
  let x := { x with cmd := x.cmd.tryMarkLastBackend b }
  if ec ≠ .success then onReplyError b ec x
  else match x.cmd.parseReply b with
    | none => x.emit .crash
    | some (backend, ok) =>
      let x := { x with cmd := x.cmd.setBackend b backend }
      if ok then
        let x := backendReadyToReply b x
        { x with cmd := x.cmd.setBackend b (x.cmd.backend b).tryReadMoreReply }
      else onReplyError b .protocol x

/-- `Command::OnWriteReplyFinished`, which this class inherits. -/
def onWriteReplyFinished (b : ℕ) (ec : ErrorCode) (x : Ctx (MemcGetCommand ε)) :
    Ctx (MemcGetCommand ε) :=
  if ec ≠ .success then x.emit .abort
  else if !x.cmd.reply.isWriting then x.emit .assertFailed
  else
    let backend := { x.cmd.backend b with buffer := (x.cmd.backend b).buffer.decRecycleLock }
    let x := { x with
      cmd := { x.cmd.setBackend b backend with
        reply := { x.cmd.reply with isWriting := false } } }
    if backend.finished then
      if backend.buffer.recycleLocked then x.emit .assertFailed
      else rotateReplyingBackend x
    else tryWriteReply b { x with cmd := x.cmd.setBackend b backend.tryReadMoreReply }

def handlers : Handlers ε (MemcGetCommand ε) where
  backend c b := if b < c.count then some (c.backend b) else none
  setBackend := setBackend
  startWriteQuery := startWriteQuery
  continueWriteQuery x := (x.emit .assertFailed, false)
  parseUnparsedPart x := (x, true)
  processUnparsedPart x := (x, true)
  startWriteReply := startWriteReply
  onWriteQueryFinished := onWriteQueryFinished
  onBackendReplyReceived := onBackendReplyReceived
  onWriteReplyFinished
    | none, _, x => x.emit .crash
    | some b, ec, x => onWriteReplyFinished b ec x
  queryParsingComplete _ := true
  queryRecvComplete _ := true

end MemcGetCommand
end Yarmproxy

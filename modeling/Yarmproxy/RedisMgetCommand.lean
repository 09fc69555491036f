import Yarmproxy.MemcGetCommand

/-! # `RedisMgetCommand`

A Redis `MGET` whose keys are regrouped by endpoint. `waitingReplyQueue` holds the runs of
keys that the backends have to deliver one after the other. -/
namespace Yarmproxy

variable {ε : Type}

structure MgetSubquery (ε : Type) where
  backend : BackendConn ε
  keyCount : ℕ
  segments : List Segment
  replyAbsentBulks : ℕ

structure RedisMgetCommand (ε : Type) where
  /-- the size of `subqueries_` -/
  count : ℕ
  subquery : ℕ → MgetSubquery ε
  reply : ReplyState
  replyingBackend : Option ℕ
  replyPrefix : Bytes
  waitingReplyQueue : List (ℕ × ℕ)

namespace RedisMgetCommand

def backend (c : RedisMgetCommand ε) (b : ℕ) : BackendConn ε := (c.subquery b).backend

def setSubquery (c : RedisMgetCommand ε) (b : ℕ) (s : MgetSubquery ε) : RedisMgetCommand ε :=
  { c with subquery := Function.update c.subquery b s }

def setBackend (c : RedisMgetCommand ε) (b : ℕ) (backend : BackendConn ε) : RedisMgetCommand ε :=
  c.setSubquery b { c.subquery b with backend := backend }

/-- The segment list with a bulk of `size` bytes at `data`: the last segment grows when the
endpoint is that of the key before. `none` when there is no last segment. -/
def pushSegment (segments : List Segment) (data : Ptr) (size : ℕ) (adjacent : Bool) :
    Option (List Segment) :=
  if adjacent then do
    let last ← segments.getLast?
    let start ← last.at_
    some (segments.dropLast ++ [⟨last.at_, Ptr.bytes ⟨data.mem, start⟩ (last.bytes.length + size)⟩])
  else some (segments ++ [⟨some data.off, data.bytes size⟩])

def pushRun (queue : List (ℕ × ℕ)) (b : ℕ) : List (ℕ × ℕ) :=
  match queue.getLast? with
  | some (b', n) => if b' = b then queue.dropLast ++ [(b, n + 1)] else queue ++ [(b, 1)]
  | none => [(b, 1)]

/-- The state of the constructor's loop; `lastEndpoint` is default-constructed at first. -/
structure Building (ε : Type) where
  buffer : ReadBuffer
  lastEndpoint : ε
  cmd : RedisMgetCommand ε

def pushKey [DecidableEq ε] (locate : Bytes → ε) (pool : Pool) (s : Building ε) (bulk : Bulk) :
    Option (Building ε) := do
  let key ← bulk.payload
  let ep := locate key
  let (buffer, c, b) := match (List.range s.cmd.count).find? fun b =>
      (s.cmd.backend b).remoteEndpoint = ep with
    | some b => (s.buffer, s.cmd, b)
    | none =>
      (s.buffer.incRecycleLock,
        { s.cmd.setSubquery s.cmd.count ⟨pool.allocate s.cmd.count ep, 0, [], 0⟩ with
          count := s.cmd.count + 1 }, s.cmd.count)
  let total ← bulk.totalSize
  let segments ← pushSegment (c.subquery b).segments bulk.rawData total (s.lastEndpoint = ep)
  let c := c.setSubquery b { c.subquery b with
    keyCount := (c.subquery b).keyCount + 1
    segments := segments }
  some ⟨buffer, ep, { c with waitingReplyQueue := pushRun c.waitingReplyQueue b }⟩

/-- The constructor; `none` when it reads a bulk that is not there. -/
def new [DecidableEq ε] [Inhabited ε] (locate : Bytes → ε) (pool : Pool) (buffer : ReadBuffer)
    (ba : BulkArray) : Option (ReadBuffer × RedisMgetCommand ε) := do
  let empty : RedisMgetCommand ε :=
    ⟨0, fun k => ⟨pool.allocate k default, 0, [], 0⟩, .idle, none,
      serializePrefix (subSize ba.totalBulks 1), []⟩
  let bulks ← (List.range' 1 (ba.totalBulks - 1)).mapM fun i => ba.items[i]?
  let s ← bulks.foldlM (pushKey locate pool) ⟨buffer, default, empty⟩
  some (s.buffer, s.cmd)

/-- The part of `StartWriteQuery` for one backend: a placeholder segment stands for the
query prefix, which is written first. -/
def writePrefix (c : RedisMgetCommand ε) (b : ℕ) : RedisMgetCommand ε :=
  let s := c.subquery b
  let data := serializePrefix (s.keyCount + 1) ++ ascii "$4\r\nmget\r\n"
  c.setSubquery b { s with
    segments := ⟨none, []⟩ :: s.segments
    backend := s.backend.writeQuery none data }

def startWriteReply (x : Ctx (RedisMgetCommand ε)) : Ctx (RedisMgetCommand ε) :=
  x.emit (.writeReply x.cmd.replyPrefix none)

def startWriteQuery (x : Ctx (RedisMgetCommand ε)) : Ctx (RedisMgetCommand ε) × Bool :=
  let x := { x with cmd := (List.range x.cmd.count).foldl writePrefix x.cmd }
  (if x.first then startWriteReply x else x, false)

def replyPrefixComplete (c : RedisMgetCommand ε) : Bool := c.replyPrefix.isEmpty

/-- `assert(waiting_reply_queue_.front().second > 0)` and the decrement; the flag says
whether the run is used up. -/
def takeBulk (c : RedisMgetCommand ε) : Option (RedisMgetCommand ε × Bool) :=
  match c.waitingReplyQueue with
  | (b, n + 1) :: queue => some ({ c with waitingReplyQueue := (b, n) :: queue }, n == 0)
  | _ => none

inductive Round where
  | failed | waiting | bulk
  deriving DecidableEq, Repr

/-- A subquery that has taken a bulk and has `absent` more to come. -/
def taking (s : MgetSubquery ε) (buffer : ReadBuffer) (absent : ℕ) (completed : Bool) :
    MgetSubquery ε :=
  let k := { s.backend with buffer := buffer }
  { s with
    backend := if completed then k.setReplyRecvComplete else k
    replyAbsentBulks := absent }

def takeFirst (s : MgetSubquery ε) (ba : BulkArray) (first : Bulk) :
    Option (MgetSubquery ε × Round) := do
  let total ← first.totalSize
  let header := first.rawData.off - ba.rawData.off
  let buffer :=
    (s.backend.buffer.updateParsedBytes (addSize header total)).updateProcessedOffset header
  if ba.totalBulks = 0 then
    some ({ s with backend := { s.backend with buffer := buffer } }, .failed)
  else do
    let absent := subSize ba.totalBulks 1
    let completed ← if absent = 0 then ba.completed else some false
    some (taking s buffer absent completed, .bulk)

def parseFirst (s : MgetSubquery ε) : Option (MgetSubquery ε × Round) := do
  let ba ← BulkArray.parse s.backend.buffer.unparsedData s.backend.buffer.unparsedBytes
  if ba.parsedSize < 0 then some (s, .failed)
  else if ba.parsedSize = 0 then some (s, .waiting)
  else match ba.items with
    | [] => some (s, .waiting)
    | first :: _ => takeFirst s ba first

def parseNext (s : MgetSubquery ε) : Option (MgetSubquery ε × Round) := do
  let bulk := Bulk.parse s.backend.buffer.unparsedData s.backend.buffer.unparsedBytes
  if bulk.presentSize < 0 then some (s, .failed)
  else if bulk.presentSize = 0 then some (s, .waiting)
  else do
    let total ← bulk.totalSize
    let absent := s.replyAbsentBulks - 1
    let completed ← if absent = 0 then bulk.completed else some false
    some (taking s (s.backend.buffer.updateParsedBytes total) absent completed, .bulk)

def parseRound (s : MgetSubquery ε) : Option (MgetSubquery ε × Round) :=
  if s.replyAbsentBulks = 0 then parseFirst s else parseNext s

/-- The loop of `ParseReply`; every round takes bytes, so they bound the rounds. -/
def parseReplyLoop (b : ℕ) : ℕ → RedisMgetCommand ε → Option (RedisMgetCommand ε × Bool)
  | 0, c => if (c.backend b).buffer.unparsedBytes = 0 then some (c, true) else none
  | fuel + 1, c =>
    if (c.backend b).buffer.unparsedBytes = 0 then some (c, true)
    else do
      let (s, round) ← parseRound (c.subquery b)
      let c := c.setSubquery b s
      match round with
      | .failed => some (c, false)
      | .waiting => some (c, true)
      | .bulk =>
        let (c, used) ← takeBulk c
        if used then some (c, true) else parseReplyLoop b fuel c

/-- `none` stands for a failed assertion and for a read beyond the buffer. -/
def parseReply (c : RedisMgetCommand ε) (b : ℕ) : Option (RedisMgetCommand ε × Bool) :=
  let k := c.backend b
  if 0 < k.buffer.unprocessedBytes then
    some (if k.buffer.parsedUnreceivedBytes = 0 ∧ (c.subquery b).replyAbsentBulks = 0
      then c.setBackend b k.setReplyRecvComplete else c, true)
  else parseReplyLoop b k.buffer.unparsedBytes c

def tryWriteReply (b : ℕ) (x : Ctx (RedisMgetCommand ε)) : Ctx (RedisMgetCommand ε) :=
  let (backend, r, effects) := Yarmproxy.tryWriteReply b (x.cmd.backend b) x.cmd.reply
  { x with
    cmd := { x.cmd.setBackend b backend with reply := r }
    effects := x.effects ++ effects }

/-- The end of `BackendReadyToReply`, with the result of `ParseReply`. -/
def afterParse (b : ℕ) (x : Ctx (RedisMgetCommand ε)) :
    Option (RedisMgetCommand ε × Bool) → Ctx (RedisMgetCommand ε)
  | none => x.emit .crash
  | some (c, ok) =>
    let x := { x with cmd := c }
    if !ok then x.emit .abort
    else if (c.backend b).buffer.unprocessedBytes = 0 then
      { x with cmd := c.setBackend b (c.backend b).tryReadMoreReply }
    else tryWriteReply b x

def backendReadyToReply (b : ℕ) (x : Ctx (RedisMgetCommand ε)) : Ctx (RedisMgetCommand ε) :=
  if !x.first then x
  else match x.cmd.waitingReplyQueue with
    | [] => x.emit .abort
    | (front, _) :: _ =>
      if !x.cmd.replyPrefixComplete then x
      else if b ≠ front then x
      else
        let x := { x with cmd := { x.cmd with replyingBackend := some b } }
        afterParse b x (x.cmd.parseReply b)

def nextBackendStartReply (x : Ctx (RedisMgetCommand ε)) : Ctx (RedisMgetCommand ε) :=
  if !x.cmd.replyPrefixComplete then x
  else match x.cmd.waitingReplyQueue with
    | [] => x.emit .assertFailed
    | (front, _) :: _ =>
      if 0 < (x.cmd.backend front).buffer.unparsedBytes then backendReadyToReply front x else x

def rotateReplyingBackend (x : Ctx (RedisMgetCommand ε)) : Ctx (RedisMgetCommand ε) :=
  if x.cmd.waitingReplyQueue.isEmpty then x.emit .rotate else nextBackendStartReply x

/-- `pop_front` of a run that is used up. -/
def popRun (c : RedisMgetCommand ε) : RedisMgetCommand ε :=
  match c.waitingReplyQueue with
  | (_, 0) :: queue => { c with waitingReplyQueue := queue }
  | _ => c

/-- The write side of a completed client write of `b`. -/
def writeDone (c : RedisMgetCommand ε) (b : ℕ) : RedisMgetCommand ε :=
  { c.setBackend b { c.backend b with buffer := (c.backend b).buffer.decRecycleLock } with
    reply := { c.reply with isWriting := false } }

def onWriteReplyFinished (backend : Option ℕ) (ec : ErrorCode) (x : Ctx (RedisMgetCommand ε)) :
    Ctx (RedisMgetCommand ε) :=
  if ec ≠ .success then x.emit .abort
  else match backend with
    | none => nextBackendStartReply { x with cmd := { x.cmd with replyPrefix := [] } }
    | some b =>
      if !x.cmd.reply.isWriting then x.emit .assertFailed
      else
        let x := { x with cmd := x.cmd.writeDone b }
        if x.cmd.waitingReplyQueue.head?.map Prod.fst ≠ some b ∨ x.cmd.replyingBackend ≠ some b then
          x.emit .assertFailed
        else if (x.cmd.backend b).buffer.parsedUnreceivedBytes = 0 then
          rotateReplyingBackend { x with cmd := x.cmd.popRun }
        else { x with cmd := x.cmd.setBackend b (x.cmd.backend b).tryReadMoreReply }

def errorReplyBody (keys : ℕ) : Bytes :=
  ascii "*" ++ dec keys ++ crlf ++ (List.replicate keys (ascii "$-1\r\n")).flatten

def onBackendRecoverableError (b : ℕ) (x : Ctx (RedisMgetCommand ε)) : Ctx (RedisMgetCommand ε) :=
  let k := (x.cmd.backend b).setReplyData (errorReplyBody (x.cmd.subquery b).keyCount) false
  backendReadyToReply b { x with cmd := x.cmd.setBackend b k.setNoRecycle }

def onBackendReplyReceived (b : ℕ) (ec : ErrorCode) (x : Ctx (RedisMgetCommand ε)) :
    Ctx (RedisMgetCommand ε) :=
  if ec ≠ .success then
    if x.cmd.replyingBackend = some b then x.emit .abort else onBackendRecoverableError b x
  else backendReadyToReply b x

def onWriteQueryFinished (b : ℕ) (ec : ErrorCode) (x : Ctx (RedisMgetCommand ε)) :
    Ctx (RedisMgetCommand ε) :=
  if ec ≠ .success then
    if ec = .connect then (onBackendRecoverableError b x).emit .decRecycleLock else x.emit .abort
  else
    let s := x.cmd.subquery b
    match s.segments.tail with
    | [] =>
      { x with
        buffer := x.buffer.decRecycleLock
        cmd := x.cmd.setSubquery b { s with segments := [], backend := s.backend.readReply } }
    | segment :: segments =>
      { x with
        cmd := x.cmd.setSubquery b { s with
          segments := segment :: segments
          backend := s.backend.writeQuery segment.at_ segment.bytes } }

def handlers : Handlers ε (RedisMgetCommand ε) where
  backend c b := if b < c.count then some (c.backend b) else none
  setBackend := setBackend
  startWriteQuery := startWriteQuery
  continueWriteQuery x := (x.emit .assertFailed, false)
  parseUnparsedPart x := (x, true)
  processUnparsedPart x := (x, true)
  startWriteReply := startWriteReply
  onWriteQueryFinished := onWriteQueryFinished
  onBackendReplyReceived := onBackendReplyReceived
  onWriteReplyFinished := onWriteReplyFinished
  queryParsingComplete _ := true
  queryRecvComplete _ := true

end RedisMgetCommand
end Yarmproxy

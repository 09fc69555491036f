import Yarmproxy.Command

/-! # The client connection

`ClientConnection` with its buffer and its queue of active commands, over an arbitrary family
of commands. A handler of the source is cut at its calls into the commands: what is left to do
is kept as a list of tasks, and `step` does the first of them. The states between two handlers
are those with nothing to do. -/
namespace Yarmproxy

variable {ε C : Type}

/-- The commands of a connection: `construct k` makes the object that `CreateCommand` found for
the `k`-th request; `none` when the constructor reads out of the buffer. -/
structure Family (ε C : Type) extends Handlers ε C where
  construct : ℕ → ReadBuffer → Created → Option (ReadBuffer × C)

/-- An entry of `active_cmd_queue_`. -/
structure Active (C : Type) where
  id : ℕ
  created : Created
  cmd : C

inductive Task where
  /-- a call of the command `id` into the connection -/
  | effect (id : ℕ) (e : Effect)
  /-- the end of `RotateReplyingCommand`, behind `StartWriteReply` of the new front -/
  | rotated
  /-- the head of the loop of `ProcessUnparsedQuery` -/
  | processUnparsedQuery
  /-- the loop body of `ProcessUnparsedQuery` behind `StartWriteQuery` -/
  | started (id : ℕ) (noCallback : Bool)
  /-- `HandleRead` behind `ParseUnparsedPart` -/
  | parsed (back : Option ℕ)
  /-- `HandleRead` behind `ContinueWriteQuery` -/
  | continued (back : Option ℕ) (noCallback : Bool)
  /-- `HandleRead` before `ProcessUnparsedPart` -/
  | unparsed (back : Option ℕ)
  /-- the end of `HandleRead` -/
  | handled (back : Option ℕ)
  deriving DecidableEq, Repr

structure ClientConn (C : Type) where
  buffer : ReadBuffer
  activeCmdQueue : List (Active C)
  isReadingQuery : Bool
  /-- `is_writing_reply_`, with the command and the backend its callback is bound to -/
  writing : Option (ℕ × Option ℕ)
  aborted : Bool
  crashed : Bool
  /-- the number of commands created -/
  count : ℕ
  todo : List Task
  /-- the commands that have left the queue -/
  gone : List (Active C)
  /-- what was handed to the client socket, with the command it was for -/
  replies : List (ℕ × Bytes)

/-- `kPipelineActiveLimit` -/
def pipelineActiveLimit : ℕ := 16

namespace ClientConn

def live (c : ClientConn C) : Prop := c.aborted = false ∧ c.crashed = false

instance (c : ClientConn C) : Decidable c.live := inferInstanceAs (Decidable (_ ∧ _))

/-- The states between two handlers of a connection that is not aborted. -/
def Quiescent (c : ClientConn C) : Prop := c.live ∧ c.todo = []

def find (c : ClientConn C) (id : ℕ) : Option (Active C) :=
  c.activeCmdQueue.find? fun a => a.id = id

def back (c : ClientConn C) : Option (Active C) := c.activeCmdQueue.getLast?

def isFirst (c : ClientConn C) (id : ℕ) : Bool := c.activeCmdQueue.head?.any fun a => a.id = id

def crash (c : ClientConn C) : ClientConn C := { c with crashed := true, todo := [] }

def abort (c : ClientConn C) : ClientConn C :=
  { c with
    aborted := true
    gone := c.gone ++ c.activeCmdQueue
    activeCmdQueue := []
    todo := [] }

def push (c : ClientConn C) (t : Task) : ClientConn C := { c with todo := t :: c.todo }

def setCmd (c : ClientConn C) (id : ℕ) (cmd : C) : ClientConn C :=
  { c with
    activeCmdQueue := c.activeCmdQueue.map fun a => if a.id = id then { a with cmd := cmd } else a }

/-- Run a handler of the active command `a`: its calls into the connection come first, then
`after`, what the connection does behind the handler. -/
def run (c : ClientConn C) (a : Active C) (f : Ctx C → Ctx C × List Task) : ClientConn C :=
  let (x, after) := f ⟨c.buffer, c.isFirst a.id, a.cmd, []⟩
  { c.setCmd a.id x.cmd with
    buffer := x.buffer
    todo := x.effects.map (Task.effect a.id) ++ (after ++ c.todo) }

/-- `TryReadMoreQuery` and `AsyncRead` -/
def tryReadMoreQuery (c : ClientConn C) : ClientConn C :=
  if c.isReadingQuery || !c.buffer.hasMuchFreeSpace then c
  else { c with isReadingQuery := true, buffer := c.buffer.incRecycleLock }

def updateProcessed (c : ClientConn C) : ClientConn C :=
  { c with buffer := c.buffer.updateProcessedBytes c.buffer.unprocessedBytes }

section
variable (h : Family ε C) (c : ClientConn C)

def rotateReplyingCommand : ClientConn C :=
  let c := if c.activeCmdQueue.length = 1 then c.tryReadMoreQuery else c
  match c.activeCmdQueue with
  | [] => c.crash
  | a :: queue =>
    let c := { c with activeCmdQueue := queue, gone := c.gone ++ [a] }
    match queue with
    | [] => c
    | front :: _ => c.run front fun x => (h.startWriteReply x, [.rotated])

/-- `push_back` of a new command and `StartWriteQuery`. -/
def startCommand (n : ℕ) (created : Created) (buffer : ReadBuffer) (cmd : C) : ClientConn C :=
  let a : Active C := ⟨c.count, created, cmd⟩
  let c := { c with
    buffer := buffer.updateParsedBytes n
    activeCmdQueue := c.activeCmdQueue ++ [a]
    count := c.count + 1 }
  c.run a fun x =>
    let (x, noCallback) := h.startWriteQuery x
    (x, [.started a.id noCallback])

/-- One round of the loop. A count of 0 is taken for want of data. -/
def processUnparsedQuery : ClientConn C :=
  if c.activeCmdQueue.length < pipelineActiveLimit ∧ 0 < c.buffer.unparsedReceivedBytes then
    match createCommand c.buffer.bufferSize c.buffer.unprocessedData c.buffer.receivedBytes with
    | none => c.crash
    | some (_, none) => c.tryReadMoreQuery
    | some (n, some created) =>
      match h.construct c.count c.buffer created with
      | none => c.crash
      | some (buffer, cmd) =>
        if n = 0 then { c with buffer := buffer }.tryReadMoreQuery
        else c.startCommand h n created buffer cmd
  else c

def finishStarted (id : ℕ) (noCallback : Bool) : ClientConn C :=
  let c := c.updateProcessed
  match c.find id with
  | none => c
  | some a =>
    if 0 < c.buffer.parsedUnreceivedBytes ∨ h.queryParsingComplete a.cmd = false then
      if noCallback then c.tryReadMoreQuery else c
    else c.push .processUnparsedQuery

/-- `back()` is asked for even if the new front has left the queue empty. -/
def finishRotated : ClientConn C :=
  match c.back with
  | none => c.crash
  | some a =>
    if h.queryRecvComplete a.cmd then c.push .processUnparsedQuery
    else if !c.buffer.recycleLocked then c.tryReadMoreQuery
    else c

def finishParsed (back : Option ℕ) : ClientConn C :=
  -- the assertion of `parsed_unprocessed_bytes()`
  if c.buffer.parsedOffset < c.buffer.processedOffset then c.crash
  else if 0 < c.buffer.parsedUnprocessedBytes then
    match back.bind c.find with
    | none => c.crash
    | some a => c.run a fun x =>
      let (x, noCallback) := h.continueWriteQuery x
      (x, [.continued back noCallback])
  else c.push (.unparsed back)

def finishContinued (back : Option ℕ) (noCallback : Bool) : ClientConn C :=
  let c := c.updateProcessed
  if 0 < c.buffer.parsedUnreceivedBytes then
    if noCallback then c.tryReadMoreQuery else c
  else c.push (.unparsed back)

def finishUnparsed (back : Option ℕ) : ClientConn C :=
  match back.bind c.find with
  | none => c.push (.handled back)
  | some a =>
    if h.queryParsingComplete a.cmd then c.push (.handled back)
    else c.run a fun x =>
      let (x, ok) := h.processUnparsedPart x
      (x, [if ok then .handled back else .effect a.id .abort])

def finishHandled (back : Option ℕ) : ClientConn C :=
  match back.bind c.find with
  | none => c.push .processUnparsedQuery
  | some a => if h.queryParsingComplete a.cmd then c.push .processUnparsedQuery else c

def perform : Task → ClientConn C
  | .effect id (.writeReply data b) =>
    if c.writing.isSome then c.crash
    else { c with writing := some (id, b), replies := c.replies ++ [(id, data)] }
  | .effect _ .rotate => c.rotateReplyingCommand h
  | .effect _ .abort => c.abort
  | .effect _ .tryReadMoreQuery => c.tryReadMoreQuery
  | .effect _ .decRecycleLock => { c with buffer := c.buffer.decRecycleLock }
  | .effect _ .assertFailed | .effect _ .crash => c.crash
  | .rotated => c.finishRotated h
  | .processUnparsedQuery => c.processUnparsedQuery h
  | .started id noCallback => c.finishStarted h id noCallback
  | .parsed back => c.finishParsed h back
  | .continued back noCallback => c.finishContinued back noCallback
  | .unparsed back => c.finishUnparsed h back
  | .handled back => c.finishHandled h back

/-- `HandleRead` of `chunk` up to `ParseUnparsedPart`. -/
def handleRead (chunk : Bytes) : ClientConn C :=
  let c := { c with
    isReadingQuery := false
    buffer := (c.buffer.receive chunk).decRecycleLock }
  match c.back with
  | none => c.push (.parsed none)
  | some a =>
    if h.queryRecvComplete a.cmd then c.push (.parsed (some a.id))
    else c.run a fun x =>
      let (x, ok) := h.parseUnparsedPart x
      (x, [if ok then .parsed (some a.id) else .effect a.id .abort])

/-- The callback of a client write: it does nothing once its command is gone. -/
def handleWrite (ec : ErrorCode) : ClientConn C :=
  match c.writing with
  | none => c
  | some (id, b) =>
    let c := { c with writing := none }
    match c.find id with
    | none => c
    | some a => c.run a fun x => (h.onWriteReplyFinished b ec x, [])

end

inductive Event where
  /-- the next part of the running handler -/
  | step
  | readDone (chunk : Bytes) | readEof | readFailed
  | writeDone | writeFailed
  | backend (id b : ℕ) (e : BackendEvent)
  | timeout

/-- What the backends may answer: backend `b` of command `cmd` may have sent `bytes` so far. -/
abbrev Answers (C : Type) := C → ℕ → Bytes → Prop

def Enabled (h : Family ε C) (A : Answers C) (c : ClientConn C) : Event → Prop
  | .step => c.live ∧ c.todo ≠ []
  | .readDone chunk =>
    c.Quiescent ∧ c.isReadingQuery = true ∧ chunk ≠ [] ∧ chunk.length ≤ c.buffer.freeSpaceSize
  | .readEof | .readFailed => c.Quiescent ∧ c.isReadingQuery = true
  | .writeDone | .writeFailed => c.Quiescent ∧ c.writing.isSome
  | .backend id b e =>
    c.Quiescent ∧ ∃ a k, c.find id = some a ∧ h.backend a.cmd b = some k ∧ k.Enabled e ∧
      ∀ chunk, e = .replyRead chunk → A a.cmd b (k.received ++ chunk)
  | .timeout => c.Quiescent

section Decidable
variable (h : Family ε C) (A : Answers C) [∀ c b bytes, Decidable (A c b bytes)] (c : ClientConn C)

instance : Decidable c.Quiescent := inferInstanceAs (Decidable (_ ∧ _))

def admits (cmd : C) (b : ℕ) (e : BackendEvent) (k : BackendConn ε) : Bool :=
  decide (k.Enabled e) && match e with
    | .replyRead chunk => decide (A cmd b (k.received ++ chunk))
    | _ => true

theorem admits_iff {cmd : C} {b : ℕ} {e : BackendEvent} {k : BackendConn ε} :
    admits A cmd b e k = true ↔
      k.Enabled e ∧ ∀ chunk, e = .replyRead chunk → A cmd b (k.received ++ chunk) := by
  cases e <;> simp [admits]

instance : ∀ e, Decidable (Enabled h A c e)
  | .step => inferInstanceAs (Decidable (_ ∧ _))
  | .readDone _ => inferInstanceAs (Decidable (_ ∧ _ ∧ _ ∧ _))
  | .readEof | .readFailed => inferInstanceAs (Decidable (_ ∧ _))
  | .writeDone | .writeFailed => inferInstanceAs (Decidable (_ ∧ _))
  | .backend id b e =>
    decidable_of_iff (c.Quiescent ∧ (c.find id).any (fun a =>
        (h.backend a.cmd b).any (admits A a.cmd b e)) = true) (by
      cases ha : c.find id with
      | none => simp [Enabled, ha]
      | some a =>
        cases hk : h.backend a.cmd b with
        | none => simp [Enabled, ha, hk]
        | some k => simp [Enabled, ha, hk, admits_iff])
  | .timeout => inferInstanceAs (Decidable c.Quiescent)

end Decidable

def next (h : Family ε C) (c : ClientConn C) : Event → ClientConn C
  | .step =>
    match c.todo with
    | [] => c
    | t :: todo => { c with todo := todo }.perform h t
  | .readDone chunk => c.handleRead h chunk
  | .readEof => { c with isReadingQuery := false }
  | .readFailed => c.abort
  | .writeDone => c.handleWrite h .success
  | .writeFailed => c.handleWrite h .writeReply
  | .backend id b e =>
    match c.find id with
    | none => c
    | some a => c.run a fun x => (h.onBackend b e x, [])
  | .timeout => c.abort

def system (h : Family ε C) (A : Answers C) : Transition.System (ClientConn C) Event where
  Enabled := Enabled h A
  next := next h

instance (h : Family ε C) (A : Answers C) [∀ c b bytes, Decidable (A c b bytes)]
    (c : ClientConn C) (e : Event) : Decidable ((system h A).Enabled c e) :=
  inferInstanceAs (Decidable (Enabled h A c e))

/-- `StartRead` on a new connection with the buffer memory `data`. -/
def init (data : Bytes) : ClientConn C :=
  tryReadMoreQuery ⟨.new data, [], false, none, false, false, 0, [], [], []⟩

end ClientConn
end Yarmproxy

import Yarmproxy.BackendConn
import Yarmproxy.CreateCommand
import Yarmproxy.Transition

/-! # Commands and what they ask of the client connection

A handler of a command runs to its end on the client buffer and the command's own state.
What it does to the client connection is recorded in order as effects, which the connection
carries out. `World` is one command in an arbitrary connection: the buffer it is given, the
moment it becomes first and the completion of its client writes come from outside. -/
namespace Yarmproxy

variable {ε C : Type}

inductive Effect where
  /-- `WriteReply` with the backend its callback is bound to -/
  | writeReply (data : Bytes) (backend : Option ℕ)
  | rotate
  | abort
  | tryReadMoreQuery
  | decRecycleLock
  | assertFailed
  /-- a read outside the buffer or an uncaught exception -/
  | crash
  deriving DecidableEq, Repr

/-- What a handler works on: `first` is the answer of `IsFirstCommand`. -/
structure Ctx (C : Type) where
  buffer : ReadBuffer
  first : Bool
  cmd : C
  effects : List Effect
  deriving DecidableEq, Repr

def Ctx.emit (x : Ctx C) (e : Effect) : Ctx C := { x with effects := x.effects ++ [e] }

/-- The virtual functions of `Command`, with access to the backends a command holds. -/
structure Handlers (ε C : Type) where
  backend : C → ℕ → Option (BackendConn ε)
  setBackend : C → ℕ → BackendConn ε → C
  startWriteQuery : Ctx C → Ctx C × Bool
  continueWriteQuery : Ctx C → Ctx C × Bool
  parseUnparsedPart : Ctx C → Ctx C × Bool
  processUnparsedPart : Ctx C → Ctx C × Bool
  startWriteReply : Ctx C → Ctx C
  onWriteQueryFinished : ℕ → ErrorCode → Ctx C → Ctx C
  onBackendReplyReceived : ℕ → ErrorCode → Ctx C → Ctx C
  onWriteReplyFinished : Option ℕ → ErrorCode → Ctx C → Ctx C
  queryParsingComplete : C → Bool
  queryRecvComplete : C → Bool

namespace Handlers

/-- An event of backend `b`: the connection's own handler, then the command's callback. -/
def onBackend (h : Handlers ε C) (b : ℕ) (e : BackendEvent) (x : Ctx C) : Ctx C :=
  match h.backend x.cmd b with
  | none => x
  | some c =>
    let (c, callback) := c.handle e
    let x := { x with cmd := h.setBackend x.cmd b c }
    let x := match callback with
      | none => x
      | some (.querySent ec) => h.onWriteQueryFinished b ec x
      | some (.replyReceived ec) => h.onBackendReplyReceived b ec x
    match h.backend x.cmd b with
    | none => x
    | some c => { x with cmd := h.setBackend x.cmd b (c.settle e) }

theorem onBackend_rule {h : Handlers ε C} {P : Ctx C → Prop} {b : ℕ} {e : BackendEvent}
    {x : Ctx C} (hset : ∀ y k, P y → P { y with cmd := h.setBackend y.cmd b k })
    (hsent : ∀ y ec, P y → P (h.onWriteQueryFinished b ec y))
    (hreceived : ∀ y ec, P y → P (h.onBackendReplyReceived b ec y)) (hx : P x) :
    P (h.onBackend b e x) := by
  unfold onBackend
  dsimp only
  split
  next => exact hx
  next k _ =>
    have hhandled := hset x (k.handle e).1 hx
    cases hcb : (k.handle e).2 with
    | none =>
      dsimp only
      split
      next => exact hhandled
      next => exact hset _ _ hhandled
    | some cb =>
      cases cb with
      | querySent ec =>
        dsimp only
        split
        next => exact hsent _ ec hhandled
        next => exact hset _ _ (hsent _ ec hhandled)
      | replyReceived ec =>
        dsimp only
        split
        next => exact hreceived _ ec hhandled
        next => exact hset _ _ (hreceived _ ec hhandled)

theorem onBackend_rel {h : Handlers ε C} {R : Ctx C → Ctx C → Prop} {b : ℕ} {e : BackendEvent}
    {x y : Ctx C} (hback : ∀ x y, R x y → h.backend y.cmd b = h.backend x.cmd b)
    (hset : ∀ x y k, R x y →
      R { x with cmd := h.setBackend x.cmd b k } { y with cmd := h.setBackend y.cmd b k })
    (hsent : ∀ k ec, h.backend x.cmd b = some k → (k.handle e).2 = some (.querySent ec) →
      R (h.onWriteQueryFinished b ec { x with cmd := h.setBackend x.cmd b (k.handle e).1 })
        (h.onWriteQueryFinished b ec { y with cmd := h.setBackend y.cmd b (k.handle e).1 }))
    (hreceived : ∀ k ec, h.backend x.cmd b = some k → (k.handle e).2 = some (.replyReceived ec) →
      R (h.onBackendReplyReceived b ec { x with cmd := h.setBackend x.cmd b (k.handle e).1 })
        (h.onBackendReplyReceived b ec { y with cmd := h.setBackend y.cmd b (k.handle e).1 }))
    (hxy : R x y) : R (h.onBackend b e x) (h.onBackend b e y) := by
  unfold onBackend
  rw [hback x y hxy]
  cases hk : h.backend x.cmd b with
  | none => exact hxy
  | some k =>
    dsimp only
    cases hcb : (k.handle e).2 with
    | none =>
      have hdone := hset x y (k.handle e).1 hxy
      have hslot := hback _ _ hdone
      dsimp only at hslot ⊢
      rw [hslot]
      split
      · exact hdone
      · exact hset _ _ _ hdone
    | some callback =>
      cases callback with
      | querySent ec =>
        have hdone := hsent k ec hk hcb
        dsimp only
        rw [hback _ _ hdone]
        split
        · exact hdone
        · exact hset _ _ _ hdone
      | replyReceived ec =>
        have hdone := hreceived k ec hk hcb
        dsimp only
        rw [hback _ _ hdone]
        split
        · exact hdone
        · exact hset _ _ _ hdone

end Handlers

def backendErrorText : ErrorCode → Bytes
  | .connect => ascii "Backend Connect Error"
  | .writeQuery => ascii "Backend Write Error"
  | .readReply => ascii "Backend Read Error"
  | .protocol => ascii "Backend Protocol Error"
  | .backendConnectTimeout => ascii "Backend Connect Timeout"
  | .backendWriteTimeout => ascii "Backend Write Timeout"
  | .backendReadTimeout => ascii "Backend Read Timeout"
  | _ => ascii "Backend Unknown Error"

def memcErrorReply (ec : ErrorCode) : Bytes := ascii "ERROR " ++ backendErrorText ec ++ crlf

def redisErrorReply (ec : ErrorCode) : Bytes := ascii "-" ++ backendErrorText ec ++ crlf

def errorReply : ProtocolType → ErrorCode → Bytes
  | .redis => redisErrorReply
  | _ => memcErrorReply

theorem errorReply_length (p : ProtocolType) (ec : ErrorCode) :
    0 < (errorReply p ec).length ∧ (errorReply p ec).length ≤ 31 := by
  cases p <;> cases ec <;> decide

/-- `is_writing_reply_` and `has_written_some_reply_` -/
structure ReplyState where
  isWriting : Bool
  hasWrittenSome : Bool
  deriving DecidableEq, Repr

def ReplyState.idle : ReplyState := ⟨false, false⟩

/-- `Command::TryWriteReply` on backend number `b` in state `c`. -/
def tryWriteReply (b : ℕ) (c : BackendConn ε) (r : ReplyState) :
    BackendConn ε × ReplyState × List Effect :=
  let unprocessed := c.buffer.unprocessedBytes
  if !r.isWriting && 0 < unprocessed then
    ({ c with buffer := c.buffer.incRecycleLock.updateProcessedBytes unprocessed },
      ⟨true, true⟩, [.writeReply (c.buffer.unprocessedData.bytes unprocessed) (some b)])
  else (c, r, [])

theorem tryWriteReply_skip {b : ℕ} {c : BackendConn ε} {r : ReplyState}
    (h : r.isWriting = true ∨ c.buffer.unprocessedBytes = 0) :
    tryWriteReply b c r = (c, r, []) := by
  rcases h with h | h <;> simp [tryWriteReply, h]

theorem tryWriteReply_write {b : ℕ} {c : BackendConn ε} {r : ReplyState} (hv : c.buffer.Valid)
    (hw : r.isWriting = false) (hn : 0 < min c.buffer.queued.length c.buffer.ahead) :
    tryWriteReply b c r =
      ({ c with
          buffer := c.buffer.incRecycleLock.updateProcessedBytes
            (min c.buffer.queued.length c.buffer.ahead) }, ⟨true, true⟩,
        [.writeReply (c.buffer.queued.take (min c.buffer.queued.length c.buffer.ahead))
          (some b)]) := by
  have hu := ReadBuffer.unprocessedBytes_eq hv
  have hd := ReadBuffer.unprocessedData_bytes hv (Nat.min_le_left _ c.buffer.ahead)
  simp only [tryWriteReply, hw, hu, hd]
  simp [hn]

/-- A call of `WriteReply`: the data, whether the caller was first, whether a write was in
flight, and whether the caller's request had been received completely. -/
structure ReplyCall where
  data : Bytes
  first : Bool
  overlapping : Bool
  queryReceived : Bool
  deriving DecidableEq, Repr

structure World (C : Type) where
  cmd : C
  started : Bool
  first : Bool
  /-- the client write in flight, with the backend its callback is bound to -/
  writing : Option (Option ℕ)
  calls : List ReplyCall
  rotated : Bool
  /-- the command was rotated out with its own client write in flight -/
  rotatedWriting : Bool
  aborted : Bool
  crashed : Bool

namespace World

/-- The bytes handed to the client socket for the command. -/
def out (w : World C) : Bytes := w.calls.flatMap ReplyCall.data

def apply (h : Handlers ε C) (w : World C) : Effect → World C
  | .writeReply data b =>
    { w with
      writing := some b
      calls := w.calls ++ [⟨data, w.first, w.writing.isSome, h.queryRecvComplete w.cmd⟩] }
  | .rotate => { w with rotated := true, rotatedWriting := w.rotatedWriting || w.writing.isSome }
  | .abort => { w with aborted := true }
  | .assertFailed | .crash => { w with crashed := true }
  | .tryReadMoreQuery | .decRecycleLock => w

/-- Run a handler on the client buffer `buf`. -/
def run (h : Handlers ε C) (w : World C) (buf : ReadBuffer) (f : Ctx C → Ctx C) : World C :=
  let x := f ⟨buf, w.first, w.cmd, []⟩
  x.effects.foldl (apply h) { w with cmd := x.cmd }

inductive Event where
  | start (buf : ReadBuffer)
  | parse (buf : ReadBuffer)
  | continue_ (buf : ReadBuffer)
  | process (buf : ReadBuffer)
  | becomeFirst (buf : ReadBuffer)
  | backend (buf : ReadBuffer) (b : ℕ) (e : BackendEvent)
  | writeDone (buf : ReadBuffer)
  | writeFailed (buf : ReadBuffer)

/-- The backend and the bytes of a reply read. -/
def Event.replyRead? : Event → Option (ℕ × Bytes)
  | .backend _ b (.replyRead chunk) => some (b, chunk)
  | _ => none

def live (w : World C) : Prop :=
  w.rotated = false ∧ w.aborted = false ∧ w.crashed = false

/-- What the backends may answer: backend `b` of command `c` may have sent `bytes` so far. -/
abbrev Answers (C : Type) := C → ℕ → Bytes → Prop

def Enabled (h : Handlers ε C) (A : Answers C) (w : World C) : Event → Prop
  | .start _ => w.live ∧ w.started = false
  | .parse _ | .continue_ _ | .process _ =>
    w.live ∧ w.started = true ∧ h.queryRecvComplete w.cmd = false
  | .becomeFirst _ => w.live ∧ w.started = true ∧ w.first = false
  | .backend _ b e =>
    w.live ∧ w.started = true ∧ ∃ c, h.backend w.cmd b = some c ∧ c.Enabled e ∧
      ∀ chunk, e = .replyRead chunk → A w.cmd b (c.received ++ chunk)
  | .writeDone _ | .writeFailed _ => w.live ∧ w.writing.isSome

instance (w : World C) : Decidable w.live := inferInstanceAs (Decidable (_ ∧ _))

section Decidable
variable (h : Handlers ε C) (A : Answers C) [∀ c b bytes, Decidable (A c b bytes)] (w : World C)

/-- The test of a backend event, with the connection at hand. -/
def admits (b : ℕ) (e : BackendEvent) (c : BackendConn ε) : Bool :=
  decide (c.Enabled e) && match e with
    | .replyRead chunk => decide (A w.cmd b (c.received ++ chunk))
    | _ => true

theorem admits_iff {b : ℕ} {e : BackendEvent} {c : BackendConn ε} : admits A w b e c = true ↔
    c.Enabled e ∧ ∀ chunk, e = .replyRead chunk → A w.cmd b (c.received ++ chunk) := by
  cases e <;> simp [admits]

instance : ∀ e, Decidable (Enabled h A w e)
  | .start _ => inferInstanceAs (Decidable (_ ∧ _))
  | .parse _ | .continue_ _ | .process _ => inferInstanceAs (Decidable (_ ∧ _ ∧ _))
  | .becomeFirst _ => inferInstanceAs (Decidable (_ ∧ _ ∧ _))
  | .backend _ b e =>
    decidable_of_iff (w.live ∧ w.started = true ∧ (h.backend w.cmd b).any (admits A w b e) = true)
      (by
      cases hc : h.backend w.cmd b with
      | none => simp [Enabled, hc]
      | some c => simp [Enabled, hc, admits_iff])
  | .writeDone _ | .writeFailed _ => inferInstanceAs (Decidable (_ ∧ _))

end Decidable

def next (h : Handlers ε C) (w : World C) : Event → World C
  | .start buf => run h { w with started := true } buf fun x => (h.startWriteQuery x).1
  | .parse buf => run h w buf fun x =>
    let (x, ok) := h.parseUnparsedPart x
    if ok then x else x.emit .abort
  | .continue_ buf => run h w buf fun x => (h.continueWriteQuery x).1
  | .process buf => run h w buf fun x =>
    let (x, ok) := h.processUnparsedPart x
    if ok then x else x.emit .abort
  | .becomeFirst buf => run h { w with first := true } buf h.startWriteReply
  | .backend buf b e => run h w buf (h.onBackend b e)
  | .writeDone buf =>
    match w.writing with
    | none => w
    | some b => run h { w with writing := none } buf (h.onWriteReplyFinished b .success)
  | .writeFailed buf =>
    match w.writing with
    | none => w
    | some b => run h { w with writing := none } buf (h.onWriteReplyFinished b .writeReply)

def system (h : Handlers ε C) (A : Answers C) : Transition.System (World C) Event where
  Enabled := Enabled h A
  next := next h

instance (h : Handlers ε C) (A : Answers C) [∀ c b bytes, Decidable (A c b bytes)] (w : World C)
    (e : Event) : Decidable ((system h A).Enabled w e) :=
  inferInstanceAs (Decidable (Enabled h A w e))

def init (cmd : C) (first : Bool) : World C :=
  ⟨cmd, false, first, none, [], false, false, false, false⟩

end World
end Yarmproxy

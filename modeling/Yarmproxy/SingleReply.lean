import Yarmproxy.SingleCommand

/-! # Reply integrity of the single-backend commands

At any time the command either passes on its backend's reply or has put an error line in its
place. The bytes handed to the client are a prefix of the one or of the other. -/
namespace Yarmproxy
namespace SingleCommand

variable {ε : Type} {c : SingleCommand ε} {x : Ctx (SingleCommand ε)} {p : ProtocolType}
  {reply out : Bytes} {flight : Option Bytes} {first : Bool}

/-- The command passes on the reply: what was received is what was forwarded and what is
still queued, and the parsed offset is at the beginning or at the end of the reply. -/
structure Forwarding (p : ProtocolType) (reply out : Bytes) (c : SingleCommand ε) : Prop where
  protocol : c.kind.protocol = p
  valid : c.backend.buffer.Valid
  room : 31 ≤ c.backend.buffer.bufferSize
  noError : c.backend.noRecycle = false
  received : c.backend.received = out ++ c.backend.buffer.queued
  answer : c.backend.received <+: reply
  complete : c.backend.replyRecvComplete = true ↔ c.backend.received = reply
  parsed : (out = [] ∧ c.backend.buffer.ahead = 0 ∧ c.backend.received ≠ reply) ∨
    (out.length + c.backend.buffer.ahead = reply.length ∧
      (p ≠ .redis → c.backend.received = reply))
  phase : (c.backend.received = [] ∧ c.backend.isReadingReply = false) ∨
    (c.backend.query = none ∧ c.queryRecvComplete = true)
  locks : c.backend.isReadingReply.toNat + c.reply.isWriting.toNat ≤
    c.backend.buffer.recycleLockCount

/-- An error line stands for the reply and is forwarded as a whole. -/
structure Substituted (p : ProtocolType) (out : Bytes) (c : SingleCommand ε) : Prop where
  protocol : c.kind.protocol = p
  valid : c.backend.buffer.Valid
  room : 31 ≤ c.backend.buffer.bufferSize
  error : c.backend.noRecycle = true
  line : ∃ ec, out ++ c.backend.buffer.queued = errorReply p ec
  whole : out = [] ∨ c.backend.buffer.queued = []
  parsed : c.backend.buffer.ahead = c.backend.buffer.queued.length
  complete : c.backend.replyRecvComplete = true
  locks : c.reply.isWriting.toNat ≤ c.backend.buffer.recycleLockCount

/-- The operations still outstanding on the backend connection. -/
structure Outstanding where
  query : Option QueryOp
  reading : Bool
  aborted : Bool

def outstanding (c : SingleCommand ε) : Outstanding :=
  ⟨c.backend.query, c.backend.isReadingReply, c.backend.aborted⟩

def Faithful (p : ProtocolType) (reply out : Bytes) (c : SingleCommand ε) : Prop :=
  Forwarding p reply out c ∨
    (Substituted p out c ∧ c.backend.query = none ∧ c.backend.isReadingReply = false)

/-- The flags of the command agree with what the connection has seen of it. While a client write is
in flight the bytes in front of the processed offset are `flight`. -/
structure Linked (out : Bytes) (flight : Option Bytes) (first : Bool) (c : SingleCommand ε) :
    Prop where
  isWriting : c.reply.isWriting = flight.isSome
  hasWrittenSome : c.reply.hasWrittenSome = true ↔ out ≠ []
  owner : out ≠ [] → first = true ∧ c.queryRecvComplete = true
  nonempty : flight.isSome = true → out ≠ []
  passed : ∀ bytes ∈ flight, c.backend.buffer.passed = bytes

theorem Linked.backend (h : Linked out flight first c) (b : BackendConn ε)
    (hb : c.reply.isWriting = true → b.buffer.passed = c.backend.buffer.passed) :
    Linked out flight first { c with backend := b } := by
  refine ⟨h.isWriting, h.hasWrittenSome, h.owner, h.nonempty, fun bytes hbytes => ?_⟩
  have hw : c.reply.isWriting = true := by rw [h.isWriting, Option.mem_def.mp hbytes]; rfl
  exact (hb hw).trans (h.passed bytes hbytes)

/-- The outcome of a handler: at most one effect, with the state `S` to go on from. -/
inductive Acted (S : Bytes → SingleCommand ε → Prop) (p : ProtocolType) (reply out : Bytes)
    (flight : Option Bytes) (first : Bool) (x : Ctx (SingleCommand ε)) : Prop where
  | quiet : x.effects = [] ∨ x.effects = [.tryReadMoreQuery] → S out x.cmd →
    Linked out flight first x.cmd → Acted S p reply out flight first x
  | wrote {data} : x.effects = [.writeReply data (some 0)] → flight = none →
    S (out ++ data) x.cmd → Linked (out ++ data) (some x.cmd.backend.buffer.passed) first x.cmd →
    data ≠ [] → data <:+ x.cmd.backend.buffer.passed → Acted S p reply out flight first x
  | rotated : x.effects = [.rotate] → flight = none → S out x.cmd →
    Linked out flight first x.cmd → (out = reply ∨ ∃ ec, out = errorReply p ec) →
    Acted S p reply out flight first x
  | stopped {e} : x.effects = [e] → e = .abort ∨ e = .assertFailed ∨ e = .crash →
    Acted S p reply out flight first x

theorem Acted.mono {S T : Bytes → SingleCommand ε → Prop}
    (h : Acted S p reply out flight first x) (hst : ∀ out c, S out c → T out c) :
    Acted T p reply out flight first x := by
  cases h with
  | quiet he hs hl => exact .quiet he (hst _ _ hs) hl
  | wrote he hw hs hl hd hp => exact .wrote he hw (hst _ _ hs) hl hd hp
  | rotated he hw hs hl ho => exact .rotated he hw (hst _ _ hs) hl ho
  | stopped he hk => exact .stopped he hk

theorem Acted.backend {S T : Bytes → SingleCommand ε → Prop}
    {f : BackendConn ε → BackendConn ε} (h : Acted S p reply out flight first x)
    (hf : ∀ b, (f b).buffer.passed = b.buffer.passed)
    (hst : ∀ out c, S out c → T out { c with backend := f c.backend }) :
    Acted T p reply out flight first
      { x with cmd := { x.cmd with backend := f x.cmd.backend } } := by
  cases h with
  | quiet he hs hl => exact .quiet he (hst _ _ hs) (hl.backend _ fun _ => hf _)
  | wrote he hw hs hl hd hp =>
    refine .wrote he hw (hst _ _ hs) ?_ hd ((hf _).symm ▸ hp)
    rw [hf]
    exact hl.backend _ fun _ => hf _
  | rotated he hw hs hl ho => exact .rotated he hw (hst _ _ hs) (hl.backend _ fun _ => hf _) ho
  | stopped he hk => exact .stopped he hk

/-- `n` bytes of the queue are handed to the client. -/
def written (c : SingleCommand ε) (n : ℕ) : SingleCommand ε :=
  { c with
    backend := { c.backend with
      buffer := c.backend.buffer.incRecycleLock.updateProcessedBytes n }
    reply := ⟨true, true⟩ }

/-- The bytes that `TryWriteReply` finds to forward. -/
def forwardable (c : SingleCommand ε) : ℕ :=
  min c.backend.buffer.queued.length c.backend.buffer.ahead

section Written
variable (hv : c.backend.buffer.Valid)
include hv

theorem written_valid : (c.written c.forwardable).backend.buffer.Valid :=
  ReadBuffer.updateProcessedBytes_valid (ReadBuffer.incRecycleLock_valid hv)
    (Nat.min_le_left _ _) (Nat.min_le_right _ _)

theorem queued_written : (c.written c.forwardable).backend.buffer.queued =
    c.backend.buffer.queued.drop c.forwardable :=
  ReadBuffer.queued_updateProcessedBytes (ReadBuffer.incRecycleLock_valid hv)
    (Nat.min_le_left _ _) (Nat.min_le_right _ _)

theorem ahead_written : (c.written c.forwardable).backend.buffer.ahead =
    c.backend.buffer.ahead - c.forwardable :=
  ReadBuffer.ahead_updateProcessedBytes (ReadBuffer.incRecycleLock_valid hv)
    (Nat.min_le_left _ _) (Nat.min_le_right _ _)

theorem passed_written : (c.written c.forwardable).backend.buffer.passed =
    c.backend.buffer.passed ++ c.backend.buffer.queued.take c.forwardable :=
  ReadBuffer.passed_updateProcessedBytes (ReadBuffer.incRecycleLock_valid hv)
    (Nat.min_le_left _ _) (Nat.succ_pos _)

end Written

theorem Forwarding.queued_le (h : Forwarding p reply out c) (ha : 0 < c.forwardable) :
    c.forwardable = c.backend.buffer.queued.length := by
  rcases h.parsed with ⟨_, h0, _⟩ | ⟨hl, _⟩
  · simp [forwardable, h0] at ha
  · have := h.answer.length_le
    rw [h.received, List.length_append] at this
    unfold forwardable
    omega

theorem Forwarding.written (h : Forwarding p reply out c) (ha : 0 < c.forwardable) :
    Forwarding p reply (out ++ c.backend.buffer.queued.take c.forwardable)
      (c.written c.forwardable) := by
  have hq := h.queued_le ha
  refine ⟨h.protocol, written_valid h.valid, ?_, h.noError, ?_, h.answer, h.complete, Or.inr ?_,
    h.phase, ?_⟩
  · simpa [SingleCommand.written] using h.room
  · rw [queued_written h.valid, List.append_assoc, List.take_append_drop]
    exact h.received
  · rcases h.parsed with ⟨_, h0, _⟩ | ⟨hl, hp⟩
    · simp [forwardable, h0] at ha
    · refine ⟨?_, hp⟩
      have : c.forwardable ≤ c.backend.buffer.ahead := Nat.min_le_right _ _
      rw [ahead_written h.valid, List.length_append, List.length_take]
      omega
  · have := h.locks
    simp only [SingleCommand.written, ReadBuffer.recycleLockCount_updateProcessedBytes,
      ReadBuffer.incRecycleLock, Bool.toNat_true]
    omega

theorem Substituted.written (h : Substituted p out c) :
    Substituted p (out ++ c.backend.buffer.queued.take c.forwardable)
      (c.written c.forwardable) := by
  have hf : c.forwardable = c.backend.buffer.queued.length := by
    rw [forwardable, h.parsed, Nat.min_self]
  refine ⟨h.protocol, written_valid h.valid, ?_, h.error, ?_, Or.inr ?_, ?_, h.complete, ?_⟩
  · simpa [SingleCommand.written] using h.room
  · rw [queued_written h.valid, List.append_assoc, List.take_append_drop]
    exact h.line
  · rw [queued_written h.valid, hf, List.drop_length]
  · rw [queued_written h.valid, ahead_written h.valid, List.length_drop, h.parsed]
  · simp [SingleCommand.written, ReadBuffer.incRecycleLock]

/-- A state that survives the forwarding of everything that can be forwarded. -/
structure Writable (S : Bytes → SingleCommand ε → Prop) : Prop where
  valid : ∀ {out c}, S out c → c.backend.buffer.Valid
  written : ∀ {out c}, S out c → 0 < c.forwardable →
    S (out ++ c.backend.buffer.queued.take c.forwardable) (c.written c.forwardable)

theorem faithful_writable : Writable (Faithful (ε := ε) p reply) where
  valid h := h.elim Forwarding.valid fun h => h.1.valid
  written h hn := h.imp (·.written hn) fun h => ⟨h.1.written, h.2⟩

/-- An error line stands for the reply while `o` is outstanding on the connection. -/
def Replaced (p : ProtocolType) (o : Outstanding) (out : Bytes) (c : SingleCommand ε) : Prop :=
  Substituted p out c ∧ c.outstanding = o

theorem replaced_writable {o : Outstanding} : Writable (Replaced (ε := ε) p o) where
  valid h := h.1.valid
  written h _ := ⟨h.1.written, h.2⟩

theorem tryWriteReply_acted {S : Bytes → SingleCommand ε → Prop} (hS : Writable S)
    (hs : S out x.cmd) (hl : Linked out flight first x.cmd) (he : x.effects = [])
    (hf : first = true) (hq : x.cmd.queryRecvComplete = true) :
    Acted S p reply out flight first (tryWriteReply x) := by
  have hv := hS.valid hs
  by_cases hw : x.cmd.reply.isWriting = true ∨ x.cmd.forwardable = 0
  · have hskip : Yarmproxy.tryWriteReply 0 x.cmd.backend x.cmd.reply =
        (x.cmd.backend, x.cmd.reply, []) :=
      tryWriteReply_skip (by rwa [ReadBuffer.unprocessedBytes_eq hv])
    have hx : tryWriteReply x = x := by
      simp [tryWriteReply, hskip]
    rw [hx]
    exact .quiet (Or.inl he) hs hl
  · have hn : 0 < x.cmd.forwardable := by omega
    have hi : x.cmd.reply.isWriting = false := by
      rw [← Bool.not_eq_true]
      exact fun h => hw (Or.inl h)
    have hwrite := tryWriteReply_write (b := 0) hv hi hn
    have hx : tryWriteReply x = { x with
        cmd := x.cmd.written x.cmd.forwardable
        effects := [.writeReply (x.cmd.backend.buffer.queued.take x.cmd.forwardable) (some 0)]
          } := by
      simp only [tryWriteReply, hwrite, he, List.nil_append]
      rfl
    have hd : x.cmd.backend.buffer.queued.take x.cmd.forwardable ≠ [] := by
      rw [← List.length_pos_iff, List.length_take]
      have := Nat.min_le_left x.cmd.backend.buffer.queued.length x.cmd.backend.buffer.ahead
      unfold forwardable at hn ⊢
      omega
    rw [hx]
    have hnone : flight = none := by
      rw [← Option.not_isSome_iff_eq_none, ← hl.isWriting, hi]
      decide
    refine .wrote rfl hnone (hS.written hs hn) ⟨rfl, ?_, fun _ => ⟨hf, hq⟩, ?_, fun bytes h => ?_⟩
      hd ?_
    · simp [SingleCommand.written, hd]
    · simp [hd]
    · exact Option.some.inj h
    · rw [passed_written hv]
      exact List.suffix_append _ _

theorem substitute_replaced (hp : c.kind.protocol = p) (hv : c.backend.buffer.Valid)
    (hr : 31 ≤ c.backend.buffer.bufferSize) (hw : c.reply.isWriting = false) (ec : ErrorCode) :
    Replaced p c.outstanding []
      { c with backend := c.backend.substitute (errorReply c.kind.protocol ec) } := by
  have hlen : (errorReply c.kind.protocol ec).length ≤ c.backend.buffer.bufferSize :=
    (errorReply_length _ ec).2.trans hr
  have hq := ReadBuffer.queued_pushReplyData_reset hv hlen true
  refine ⟨⟨hp, ReadBuffer.pushReplyData_reset_valid hv hlen true, hr, rfl, ⟨ec, ?_⟩, Or.inl rfl, ?_,
    rfl, by simp [hw]⟩, rfl⟩
  · rw [List.nil_append, ← hp]
    exact hq
  · have ha := ReadBuffer.ahead_pushReplyData_reset hv hlen true
    exact ha.trans (congrArg List.length hq).symm

theorem onBackendRecoverableError_acted (ec : ErrorCode) (hp : x.cmd.kind.protocol = p)
    (hv : x.cmd.backend.buffer.Valid) (hr : 31 ≤ x.cmd.backend.buffer.bufferSize)
    (hl : Linked [] flight first x.cmd) (he : x.effects = []) (hf : x.first = first) :
    Acted (Replaced p x.cmd.outstanding) p reply [] flight first
      (onBackendRecoverableError ec x) := by
  have hw : x.cmd.reply.isWriting = false := by
    rw [← Bool.not_eq_true, hl.isWriting]
    exact fun hsome => hl.nonempty hsome rfl
  have hs := substitute_replaced hp hv hr hw ec
  have hl' : Linked [] flight first
      { x.cmd with backend := x.cmd.backend.substitute (errorReply x.cmd.kind.protocol ec) } :=
    hl.backend _ fun hw' => absurd (hw.symm.trans hw') (by decide)
  unfold onBackendRecoverableError
  dsimp only
  split
  next hq =>
    split
    next hx => exact tryWriteReply_acted replaced_writable hs hl' he (hf ▸ hx) hq
    next => exact .quiet (Or.inl he) hs hl'
  next =>
    split
    · exact .quiet (Or.inr (by simp [Ctx.emit, he])) hs hl'
    · exact .quiet (Or.inl he) hs hl'

theorem Linked.out_nil (hl : Linked out flight first c) (h : ¬ c.reply.hasWrittenSome = true) :
    out = [] := by
  by_contra hne
  exact h (hl.hasWrittenSome.mpr hne)

theorem onReplyError_acted (ec : ErrorCode) (hp : x.cmd.kind.protocol = p)
    (hv : x.cmd.backend.buffer.Valid) (hr : 31 ≤ x.cmd.backend.buffer.bufferSize)
    (hl : Linked out flight first x.cmd) (he : x.effects = []) (hf : x.first = first) :
    Acted (Replaced p x.cmd.outstanding) p reply out flight first (onReplyError ec x) := by
  unfold onReplyError
  split
  next => exact .stopped (by simp [Ctx.emit, he]) (Or.inl rfl)
  next hw =>
    obtain rfl := hl.out_nil hw
    exact onBackendRecoverableError_acted ec hp hv hr hl he hf

theorem onWriteQueryFinished_error_acted {ec : ErrorCode} (hec : ec ≠ .success)
    (hp : x.cmd.kind.protocol = p) (hv : x.cmd.backend.buffer.Valid)
    (hr : 31 ≤ x.cmd.backend.buffer.bufferSize) (hl : Linked out flight first x.cmd)
    (he : x.effects = []) (hf : x.first = first) :
    Acted (Replaced p x.cmd.outstanding) p reply out flight first
      (onWriteQueryFinished ec x) := by
  unfold onWriteQueryFinished
  rw [if_pos hec]
  split
  next => exact .stopped (by simp [Ctx.emit, he]) (Or.inl rfl)
  next hw =>
    obtain rfl := hl.out_nil hw
    exact onBackendRecoverableError_acted (x := { x with buffer := x.buffer.decRecycleLock }) ec hp
      hv hr hl he hf

theorem Forwarding.readReply (h : Forwarding p reply out c) (hq : c.backend.query = none)
    (hc : c.queryRecvComplete = true) :
    Forwarding p reply out { c with backend := c.backend.readReply } := by
  refine ⟨h.protocol, ReadBuffer.incRecycleLock_valid h.valid, h.room, h.noError, h.received,
    h.answer, h.complete, h.parsed, Or.inr ⟨hq, hc⟩, ?_⟩
  have := h.locks
  simp only [BackendConn.readReply, ReadBuffer.incRecycleLock, Bool.toNat_true]
  omega

theorem onWriteQueryFinished_success_acted (h : Forwarding p reply out x.cmd)
    (hq : x.cmd.backend.query = none) (hl : Linked out flight first x.cmd) (he : x.effects = []) :
    Acted (Faithful p reply) p reply out flight first (onWriteQueryFinished .success x) := by
  unfold onWriteQueryFinished
  rw [if_neg (by simp)]
  dsimp only
  split
  next hc =>
    exact .quiet (Or.inl he) (Or.inl (h.readReply hq hc)) (hl.backend _ fun _ => rfl)
  next =>
    split
    · exact .quiet (Or.inr (by simp [Ctx.emit, he])) (Or.inl h) hl
    · exact .quiet (Or.inl he) (Or.inl h) hl

theorem Forwarding.tryReadMoreReply (h : Forwarding p reply out c)
    (hp : c.backend.query = none ∧ c.queryRecvComplete = true) :
    Forwarding p reply out { c with backend := c.backend.tryReadMoreReply } := by
  unfold BackendConn.tryReadMoreReply
  split
  · exact h
  · exact h.readReply hp.1 hp.2

theorem passed_tryReadMoreReply (b : BackendConn ε) :
    b.tryReadMoreReply.buffer.passed = b.buffer.passed := by
  unfold BackendConn.tryReadMoreReply
  split <;> rfl

theorem Substituted.tryReadMoreReply (h : Substituted p out c) :
    c.backend.tryReadMoreReply = c.backend := by
  simp [BackendConn.tryReadMoreReply, h.complete]

/-- A reply in the course of being passed on, with the query side done. -/
def Replying (p : ProtocolType) (reply out : Bytes) (c : SingleCommand ε) : Prop :=
  Forwarding p reply out c ∧ c.backend.query = none ∧ c.queryRecvComplete = true

theorem replying_writable : Writable (Replying (ε := ε) p reply) where
  valid h := h.1.valid
  written h hn := ⟨h.1.written hn, h.2⟩

theorem parseReply_replying {b : BackendConn ε} (hr : IsReply p reply)
    (hp : c.kind.protocol = p) (hv : b.buffer.Valid) (hroom : 31 ≤ b.buffer.bufferSize)
    (hnoerr : b.noRecycle = false) (hrec : b.received = out ++ b.buffer.queued)
    (hne : b.buffer.queued ≠ []) (hans : b.received <+: reply)
    (hold : b.replyRecvComplete = false)
    (hpos : (out = [] ∧ b.buffer.ahead = 0) ∨
      (out.length + b.buffer.ahead = reply.length ∧ p = .redis))
    (hquery : b.query = none) (hcomplete : c.queryRecvComplete = true)
    (hlocks : b.isReadingReply.toNat + c.reply.isWriting.toNat ≤ b.buffer.recycleLockCount) :
    ∃ b', b.parseReply p = some (b', true) ∧ Replying p reply out { c with backend := b' } ∧
      b'.buffer.passed = b.buffer.passed := by
  rcases hpos with ⟨rfl, ha⟩ | ⟨hl, rfl⟩
  · rw [List.nil_append] at hrec
    rcases BackendConn.parseReply_begin hv hr ha (hrec ▸ hans) hne with
      ⟨hparse, hq⟩ | ⟨hparse, hlen, hmemc⟩
    · refine ⟨b, hparse, ⟨⟨hp, hv, hroom, hnoerr, hrec, hans, ?_, Or.inl ⟨rfl, ha, ?_⟩,
        Or.inr ⟨hquery, hcomplete⟩, hlocks⟩, hquery, hcomplete⟩, rfl⟩
      · simp [hold, hrec, hq]
      · rwa [hrec]
    · have hbound : b.buffer.parsedOffset + reply.length < 2 ^ 64 := by
        have := ReadBuffer.parsedOffset_le hv
        omega
      refine ⟨_, hparse, ⟨⟨hp, ReadBuffer.updateParsedBytes_valid hv hbound, hroom, hnoerr, hrec,
        hans, ?_, Or.inr ⟨?_, ?_⟩, Or.inr ⟨hquery, hcomplete⟩, hlocks⟩, hquery, hcomplete⟩, rfl⟩
      · simp [BackendConn.recognised, hold, hrec]
      · rw [BackendConn.recognised, ReadBuffer.ahead_updateParsedBytes hv hbound, ha]
        simp
      · intro hm
        exact hrec.trans (hmemc hm)
  · have hle : b.buffer.queued.length ≤ b.buffer.ahead := by
      have := hans.length_le
      rw [hrec, List.length_append] at this
      omega
    refine ⟨_, BackendConn.parseReply_rest hv hle, ⟨⟨hp, hv, hroom, hnoerr, hrec, hans, ?_,
      Or.inr ⟨hl, by simp⟩, Or.inr ⟨hquery, hcomplete⟩, hlocks⟩, hquery, hcomplete⟩, rfl⟩
    simp only [hold, Bool.false_or, decide_eq_true_eq]
    have hlen : b.received.length = out.length + b.buffer.queued.length := by
      rw [hrec, List.length_append]
    constructor
    · intro he
      exact hans.eq_of_length (by omega)
    · intro he
      rw [he] at hlen
      omega

theorem Forwarding.replyRead {chunk : Bytes} (h : Forwarding p reply out c)
    (hr : IsReply p reply) (hread : c.backend.isReadingReply = true) (hc : chunk ≠ [])
    (hfree : chunk.length ≤ c.backend.buffer.freeSpaceSize)
    (ha : c.backend.received ++ chunk <+: reply) :
    ∃ b, (c.backend.handle (.replyRead chunk)).1.parseReply p = some (b, true) ∧
      Replying p reply out { c with backend := b } ∧
      (c.reply.isWriting = true → b.buffer.passed = c.backend.buffer.passed) := by
  have hne : c.backend.received ≠ reply := by
    intro he
    have hlen := ha.length_le
    have := List.length_pos_iff.mpr hc
    rw [he, List.length_append] at hlen
    omega
  have hphase : c.backend.query = none ∧ c.queryRecvComplete = true := by
    rcases h.phase with ⟨_, hn⟩ | hp
    · simp [hread] at hn
    · exact hp
  have hq := BackendConn.queued_replyRead h.valid hfree
  have hlocks := h.locks
  rw [hread] at hlocks
  -- the lock of the write is still held when the one of the read is given back
  have hpassed : c.reply.isWriting = true →
      (c.backend.handle (.replyRead chunk)).1.buffer.passed = c.backend.buffer.passed := by
    intro hw
    rw [hw] at hlocks
    exact (ReadBuffer.passed_decRecycleLock (b := c.backend.buffer.receive chunk) hlocks).trans
      (ReadBuffer.passed_receive h.valid)
  suffices hparse : ∃ b, (c.backend.handle (.replyRead chunk)).1.parseReply p = some (b, true) ∧
      Replying p reply out { c with backend := b } ∧
      b.buffer.passed = (c.backend.handle (.replyRead chunk)).1.buffer.passed by
    obtain ⟨b, hb, hreplying, hkept⟩ := hparse
    exact ⟨b, hb, hreplying, fun hw => hkept.trans (hpassed hw)⟩
  apply parseReply_replying (c := c) hr h.protocol (BackendConn.replyRead_valid h.valid hfree)
  · rw [BackendConn.bufferSize_replyRead]
    exact h.room
  · exact h.noError
  · rw [hq, ← List.append_assoc, ← h.received]
    rfl
  · rw [hq]
    simp [hc]
  · exact ha
  · rw [← Bool.not_eq_true]
    exact fun ht => hne (h.complete.mp ht)
  · rw [BackendConn.ahead_replyRead h.valid hfree]
    rcases h.parsed with ⟨ho, h0, _⟩ | ⟨hl, hm⟩
    · exact Or.inl ⟨ho, h0⟩
    · refine Or.inr ⟨hl, ?_⟩
      by_contra hpr
      exact hne (hm hpr)
  · exact hphase.1
  · exact hphase.2
  · simp only [BackendConn.handle, ReadBuffer.recycleLockCount_decRecycleLock, ReadBuffer.receive,
      Bool.toNat_true, Bool.toNat_false] at hlocks ⊢
    omega

theorem forwardReply_acted (h : Replying p reply out x.cmd) (hl : Linked out flight first x.cmd)
    (he : x.effects = []) (hf : x.first = first) :
    Acted (Faithful p reply) p reply out flight first (forwardReply x) := by
  unfold forwardReply
  have key : Acted (Replying p reply) p reply out flight first
      (if x.first then tryWriteReply x else x) := by
    split
    next hx => exact tryWriteReply_acted replying_writable h hl he (hf ▸ hx) h.2.2
    next => exact .quiet (Or.inl he) h hl
  exact key.backend passed_tryReadMoreReply fun _ _ hs => Or.inl (hs.1.tryReadMoreReply hs.2)

/-- The command after its client write has completed. -/
def replyWritten (c : SingleCommand ε) : SingleCommand ε :=
  { c with
    backend := { c.backend with buffer := c.backend.buffer.decRecycleLock }
    reply := { c.reply with isWriting := false } }

theorem Forwarding.replyWritten (h : Forwarding p reply out c) (hw : c.reply.isWriting = true) :
    Forwarding p reply out c.replyWritten := by
  have hq := ReadBuffer.queued_decRecycleLock h.valid
  have ha := ReadBuffer.ahead_decRecycleLock h.valid
  refine ⟨h.protocol, ReadBuffer.decRecycleLock_valid h.valid, ?_, h.noError, ?_, h.answer,
    h.complete, ?_, h.phase, ?_⟩
  · simpa [SingleCommand.replyWritten] using h.room
  · simpa only [SingleCommand.replyWritten, hq] using h.received
  · simpa only [SingleCommand.replyWritten, ha] using h.parsed
  · have := h.locks
    simp only [hw, SingleCommand.replyWritten, ReadBuffer.recycleLockCount_decRecycleLock,
      Bool.toNat_true, Bool.toNat_false] at this ⊢
    omega

theorem Substituted.replyWritten (h : Substituted p out c) : Substituted p out c.replyWritten := by
  have hq := ReadBuffer.queued_decRecycleLock h.valid
  have ha := ReadBuffer.ahead_decRecycleLock h.valid
  refine ⟨h.protocol, ReadBuffer.decRecycleLock_valid h.valid, ?_, h.error, ?_, ?_, ?_, h.complete,
    Nat.zero_le _⟩
  · simpa [SingleCommand.replyWritten] using h.room
  · simpa only [SingleCommand.replyWritten, hq] using h.line
  · simpa only [SingleCommand.replyWritten, hq] using h.whole
  · simpa only [SingleCommand.replyWritten, hq, ha] using h.parsed

theorem Faithful.replyWritten (h : Faithful p reply out c) (hw : c.reply.isWriting = true) :
    Faithful p reply out c.replyWritten :=
  h.imp (·.replyWritten hw) fun h => ⟨h.1.replyWritten, h.2⟩

theorem Faithful.whole (h : Faithful p reply out c) (ho : out ≠ [])
    (hf : c.backend.finished = true) : out = reply ∨ ∃ ec, out = errorReply p ec := by
  simp only [BackendConn.finished, Bool.and_eq_true, beq_iff_eq] at hf
  rcases h with h | ⟨h, -⟩
  · left
    have hr := h.received
    rw [h.complete.mp hf.1] at hr
    rw [ReadBuffer.unprocessedBytes_eq h.valid] at hf
    rcases h.parsed with ⟨he, _⟩ | ⟨hl, _⟩
    · exact absurd he ho
    · have hz : c.backend.buffer.queued.length = 0 := by
        have := congrArg List.length hr
        rw [List.length_append] at this
        omega
      rw [List.length_eq_zero_iff.mp hz, List.append_nil] at hr
      exact hr.symm
  · right
    obtain ⟨ec, hec⟩ := h.line
    rw [ReadBuffer.unprocessedBytes_eq h.valid, h.parsed, Nat.min_self] at hf
    rw [List.length_eq_zero_iff.mp hf.2, List.append_nil] at hec
    exact ⟨ec, hec⟩

theorem Faithful.tryReadMoreReply (h : Faithful p reply out c) (ho : out ≠ []) :
    Faithful p reply out { c with backend := c.backend.tryReadMoreReply } := by
  rcases h with h | ⟨h, hq⟩
  · refine Or.inl (h.tryReadMoreReply ?_)
    rcases h.phase with ⟨hr, _⟩ | hp
    · rw [h.received] at hr
      exact absurd (List.append_eq_nil_iff.mp hr).1 ho
    · exact hp
  · rw [h.tryReadMoreReply]
    exact Or.inr ⟨h, hq⟩

theorem onWriteReplyFinished_acted (h : Faithful p reply out x.cmd)
    (hl : Linked out flight first x.cmd) (hflight : flight.isSome = true) (he : x.effects = []) :
    Acted (Faithful p reply) p reply out none first (onWriteReplyFinished .success x) := by
  have ho := hl.nonempty hflight
  have hw := hl.isWriting.trans hflight
  obtain ⟨hf, hq⟩ := hl.owner ho
  have hs := h.replyWritten hw
  have idle : ∀ b : BackendConn ε, Linked out none first { x.cmd.replyWritten with backend := b } :=
    fun b => ⟨rfl, hl.hasWrittenSome, hl.owner, nofun, nofun⟩
  have hx : onWriteReplyFinished .success x =
      if x.cmd.replyWritten.backend.finished then
        if x.cmd.replyWritten.backend.buffer.recycleLocked || !x.cmd.replyWritten.queryRecvComplete
        then Ctx.emit { x with cmd := x.cmd.replyWritten } .assertFailed
        else Ctx.emit { x with cmd := x.cmd.replyWritten } .rotate
      else tryWriteReply { x with cmd := { x.cmd.replyWritten with
        backend := x.cmd.replyWritten.backend.tryReadMoreReply } } := by
    simp only [onWriteReplyFinished, hw]
    rfl
  rw [hx]
  split
  next hfin =>
    split
    · exact .stopped (by simp [Ctx.emit, he]) (Or.inr (Or.inl rfl))
    · exact .rotated (by simp [Ctx.emit, he]) rfl hs (idle _) (hs.whole ho hfin)
  next =>
    exact tryWriteReply_acted faithful_writable (hs.tryReadMoreReply ho) (idle _) he hf hq

theorem Faithful.sound (h : Faithful p reply out c) :
    c.kind.protocol = p ∧ c.backend.buffer.Valid ∧ 31 ≤ c.backend.buffer.bufferSize :=
  h.elim (fun h => ⟨h.protocol, h.valid, h.room⟩) fun h => ⟨h.1.protocol, h.1.valid, h.1.room⟩

theorem Faithful.querying (h : Faithful p reply out c) {op : QueryOp}
    (hq : c.backend.query = some op) :
    Forwarding p reply out c ∧ c.backend.received = [] ∧ c.backend.isReadingReply = false := by
  rcases h with h | ⟨_, hn, _⟩
  · rcases h.phase with hp | ⟨hn, _⟩
    · exact ⟨h, hp⟩
    · simp [hq] at hn
  · simp [hq] at hn

theorem Faithful.reading (h : Faithful p reply out c) (hr : c.backend.isReadingReply = true) :
    Forwarding p reply out c ∧ c.backend.query = none := by
  rcases h with h | ⟨_, _, hn⟩
  · rcases h.phase with ⟨_, hn⟩ | ⟨hq, _⟩
    · simp [hr] at hn
    · exact ⟨h, hq⟩
  · simp [hr] at hn

theorem Replaced.faithful {o : Outstanding} (h : Replaced p o out c) (hq : o.query = none)
    (hr : o.reading = false) : Faithful p reply out c := by
  obtain ⟨hs, rfl⟩ := h
  exact Or.inr ⟨hs, hq, hr⟩

theorem Replaced.abort {o : Outstanding} (h : Replaced p o out c) (ha : o.aborted = false) :
    Faithful p reply out { c with backend := c.backend.abort } := by
  obtain ⟨hs, rfl⟩ := h
  have ha' : c.backend.aborted = false := ha
  right
  simp only [BackendConn.abort, ha', Bool.false_eq_true, if_false, and_self, and_true]
  exact ⟨hs.protocol, hs.valid, hs.room, rfl, hs.line, hs.whole, hs.parsed, hs.complete, hs.locks⟩

theorem passed_abort (b : BackendConn ε) : b.abort.buffer.passed = b.buffer.passed := by
  unfold BackendConn.abort
  split <;> rfl

section Backend
variable (h : Faithful p reply out x.cmd) (hl : Linked out flight first x.cmd)
  (he : x.effects = []) (hf : x.first = first)
include h hl he hf

theorem querySent_error_acted (ec : ErrorCode) (hec : ec ≠ .success) (b : BackendConn ε)
    (hb : b.buffer = x.cmd.backend.buffer) :
    Acted (Replaced p ⟨b.query, b.isReadingReply, b.aborted⟩) p reply out flight first
      (onWriteQueryFinished ec { x with cmd := { x.cmd with backend := b } }) := by
  obtain ⟨hp, hv, hr⟩ := h.sound
  exact onWriteQueryFinished_error_acted (x := { x with cmd := { x.cmd with backend := b } }) hec hp
    (hb ▸ hv) (hb ▸ hr) (hl.backend b fun _ => by rw [hb]) he hf

theorem replyReceived_error_acted (ec : ErrorCode) (hec : ec ≠ .success) (b : BackendConn ε)
    (hb : b.buffer = x.cmd.backend.buffer) :
    Acted (Replaced p ⟨b.query, b.isReadingReply, b.aborted⟩) p reply out flight first
      (onBackendReplyReceived ec { x with cmd := { x.cmd with backend := b } }) := by
  obtain ⟨hp, hv, hr⟩ := h.sound
  unfold onBackendReplyReceived
  rw [if_pos hec]
  exact onReplyError_acted (x := { x with cmd := { x.cmd with backend := b } }) ec hp (hb ▸ hv)
    (hb ▸ hr) (hl.backend b fun _ => by rw [hb]) he hf

theorem replyRead_acted (hr : IsReply p reply) {chunk : Bytes}
    (hen : x.cmd.backend.Enabled (.replyRead chunk))
    (ha : x.cmd.backend.received ++ chunk <+: reply) :
    Acted (Faithful p reply) p reply out flight first (onBackendReplyReceived .success
      { x with cmd := { x.cmd with backend := (x.cmd.backend.handle (.replyRead chunk)).1 } }) := by
  obtain ⟨hread, hc, hfree⟩ := hen
  obtain ⟨hfw, _⟩ := h.reading hread
  obtain ⟨b, hparse, hb, hpassed⟩ := hfw.replyRead hr hread hc hfree ha
  unfold onBackendReplyReceived
  rw [if_neg (by simp)]
  simp only [hfw.protocol, hparse, if_true]
  exact forwardReply_acted (x := { x with cmd := { x.cmd with backend := b } }) hb
    (hl.backend b hpassed) he hf

theorem onBackend_acted (hr : IsReply p reply) {e : BackendEvent}
    (hen : x.cmd.backend.Enabled e)
    (hans : ∀ chunk, e = .replyRead chunk → x.cmd.backend.received ++ chunk <+: reply) :
    Acted (Faithful p reply) p reply out flight first (handlers.onBackend 0 e x) := by
  cases e with
  | connected =>
    obtain ⟨at_, data, hq⟩ := hen
    obtain ⟨hfw, hrec, hread⟩ := h.querying hq
    have hx : handlers.onBackend 0 .connected x = { x with cmd := { x.cmd with backend :=
        { x.cmd.backend with
          writeTimerCanceled := false, query := some (.writing at_ data) } } } := by
      simp [Handlers.onBackend, handlers, BackendConn.handle, hq, BackendConn.settle]
    rw [hx]
    refine .quiet (Or.inl he) (Or.inl ?_) (hl.backend _ fun _ => rfl)
    exact ⟨hfw.protocol, hfw.valid, hfw.room, hfw.noError, hfw.received, hfw.answer, hfw.complete,
      hfw.parsed, Or.inl ⟨hrec, hread⟩, hfw.locks⟩
  | queryWritten =>
    obtain ⟨at_, data, hq⟩ := hen
    obtain ⟨hfw, hrec, hread⟩ := h.querying hq
    have hx : handlers.onBackend 0 .queryWritten x = onWriteQueryFinished .success
        { x with cmd := { x.cmd with backend := { x.cmd.backend with
          writeTimerCanceled := true, query := none, sent := x.cmd.backend.sent ++ data } } } := by
      simp [Handlers.onBackend, handlers, BackendConn.handle, hq, BackendConn.settle]
    rw [hx]
    apply onWriteQueryFinished_success_acted
    · exact ⟨hfw.protocol, hfw.valid, hfw.room, hfw.noError, hfw.received, hfw.answer,
        hfw.complete, hfw.parsed, Or.inl ⟨hrec, hread⟩, hfw.locks⟩
    · rfl
    · exact hl.backend _ fun _ => rfl
    · exact he
  | replyRead chunk => exact replyRead_acted h hl he hf hr hen (hans chunk rfl)
  | connectFailed =>
    obtain ⟨at_, data, hq⟩ := hen
    obtain ⟨-, -, hread⟩ := h.querying hq
    exact (querySent_error_acted h hl he hf .connect (by decide)
      (x.cmd.backend.handle .connectFailed).1 rfl).mono
      fun _ _ hs => hs.faithful rfl hread
  | queryWriteFailed =>
    obtain ⟨at_, data, hq⟩ := hen
    obtain ⟨-, -, hread⟩ := h.querying hq
    exact (querySent_error_acted h hl he hf .writeQuery (by decide)
      (x.cmd.backend.handle .queryWriteFailed).1 rfl).mono
      fun _ _ hs => hs.faithful rfl hread
  | queryRefused =>
    obtain ⟨-, -, hread⟩ := h.querying hen
    exact (querySent_error_acted h hl he hf .writeQuery (by decide)
      (x.cmd.backend.handle .queryRefused).1 rfl).mono
      fun _ _ hs => hs.faithful rfl hread
  | replyReadFailed =>
    obtain ⟨-, hq⟩ := h.reading hen
    exact (replyReceived_error_acted h hl he hf .readReply (by decide)
      (x.cmd.backend.handle .replyReadFailed).1 rfl).mono
      fun _ _ hs => hs.faithful hq rfl
  | connectTimeout =>
    exact (querySent_error_acted h hl he hf .backendConnectTimeout (by decide)
      (x.cmd.backend.handle .connectTimeout).1 rfl).backend passed_abort
      fun _ _ hs => hs.abort hen.1
  | writeTimeout =>
    exact (querySent_error_acted h hl he hf .backendWriteTimeout (by decide)
      (x.cmd.backend.handle .writeTimeout).1 rfl).backend passed_abort
      fun _ _ hs => hs.abort hen.1
  | readTimeout =>
    exact (replyReceived_error_acted h hl he hf .backendReadTimeout (by decide)
      (x.cmd.backend.handle .readTimeout).1 rfl).backend passed_abort
      fun _ _ hs => hs.abort hen.1

end Backend

section Check
variable (buffer : ReadBuffer)

@[simp] theorem kind_checkQueryRecvComplete :
    (c.checkQueryRecvComplete buffer).kind = c.kind := by
  obtain ⟨kind, _, _, _, _⟩ := c
  cases kind <;> simp only [checkQueryRecvComplete] <;> split <;> rfl

@[simp] theorem backend_checkQueryRecvComplete :
    (c.checkQueryRecvComplete buffer).backend = c.backend := by
  obtain ⟨kind, _, _, _, _⟩ := c
  cases kind <;> simp only [checkQueryRecvComplete] <;> split <;> rfl

@[simp] theorem reply_checkQueryRecvComplete :
    (c.checkQueryRecvComplete buffer).reply = c.reply := by
  obtain ⟨kind, _, _, _, _⟩ := c
  cases kind <;> simp only [checkQueryRecvComplete] <;> split <;> rfl

theorem queryRecvComplete_check (h : c.queryRecvComplete = true) :
    (c.checkQueryRecvComplete buffer).queryRecvComplete = true := by
  obtain ⟨kind, _, _, _, _⟩ := c
  cases kind <;> simp only [checkQueryRecvComplete] <;> first
    | exact h
    | (split <;> first | rfl | exact h)

end Check

theorem Faithful.congr (c' : SingleCommand ε) (h : Faithful p reply out c)
    (hk : c'.kind = c.kind) (hb : c'.backend = c.backend) (hw : c'.reply = c.reply)
    (hm : c.queryRecvComplete = true → c'.queryRecvComplete = true) :
    Faithful p reply out c' := by
  rcases h with h | ⟨h, hq⟩
  · exact Or.inl ⟨hk ▸ h.protocol, hb ▸ h.valid, hb ▸ h.room, hb ▸ h.noError, hb ▸ h.received,
      hb ▸ h.answer, hb ▸ h.complete, hb ▸ h.parsed, hb ▸ h.phase.imp id fun hp => ⟨hp.1, hm hp.2⟩,
      hb ▸ hw ▸ h.locks⟩
  · exact Or.inr ⟨⟨hk ▸ h.protocol, hb ▸ h.valid, hb ▸ h.room, hb ▸ h.error, hb ▸ h.line,
      hb ▸ h.whole, hb ▸ h.parsed, hb ▸ h.complete, hb ▸ hw ▸ h.locks⟩, hb ▸ hq⟩

theorem Linked.congr (c' : SingleCommand ε) (h : Linked out flight first c)
    (hr : c'.reply = c.reply) (hb : c'.backend = c.backend)
    (hm : c.queryRecvComplete = true → c'.queryRecvComplete = true) :
    Linked out flight first c' :=
  ⟨hr ▸ h.isWriting, hr ▸ h.hasWrittenSome, fun ho => ⟨(h.owner ho).1, hm (h.owner ho).2⟩,
    h.nonempty, hb ▸ h.passed⟩

theorem writeUnprocessed_acted (h : Faithful p reply out x.cmd)
    (hl : Linked out flight first x.cmd) (he : x.effects = [])
    (herr : x.cmd.backend.noRecycle = false)
    (hr : x.cmd.backend.received = []) (hread : x.cmd.backend.isReadingReply = false) :
    Acted (Faithful p reply) p reply out flight first (writeUnprocessed x) := by
  obtain ⟨op, opened, timer, hw⟩ := x.cmd.backend.writeQuery_eq
    (some x.buffer.incRecycleLock.processedOffset)
    (x.buffer.incRecycleLock.unprocessedData.bytes x.buffer.incRecycleLock.unprocessedBytes)
  simp only [writeUnprocessed, hw]
  refine .quiet (Or.inl he) (Or.inl ?_) (hl.backend _ fun _ => rfl)
  rcases h with h | ⟨h, _⟩
  · exact ⟨h.protocol, h.valid, h.room, h.noError, h.received, h.answer, h.complete, h.parsed,
      Or.inl ⟨hr, hread⟩, h.locks⟩
  · have := h.error
    simp [herr] at this

theorem startWriteQuery_acted (h : Faithful p reply out x.cmd)
    (hl : Linked out flight first x.cmd) (he : x.effects = [])
    (herr : x.cmd.backend.noRecycle = false)
    (hr : x.cmd.backend.received = []) (hread : x.cmd.backend.isReadingReply = false) :
    Acted (Faithful p reply) p reply out flight first (startWriteQuery x).1 := by
  have hm := queryRecvComplete_check (c := x.cmd) x.buffer
  apply writeUnprocessed_acted (x := { x with cmd := x.cmd.checkQueryRecvComplete x.buffer })
    (h.congr _ (by simp) (by simp) (by simp) hm) (hl.congr _ (by simp) (by simp) hm) he
  · simpa using herr
  · simpa using hr
  · simpa using hread

theorem continueWriteQuery_acted (h : Faithful p reply out x.cmd)
    (hl : Linked out flight first x.cmd) (he : x.effects = []) (hf : x.first = first)
    (hq : x.cmd.queryRecvComplete = false) :
    Acted (Faithful p reply) p reply out flight first (continueWriteQuery x).1 := by
  have hm := queryRecvComplete_check (c := x.cmd) x.buffer
  have hs : Faithful p reply out (x.cmd.checkQueryRecvComplete x.buffer) :=
    h.congr _ (by simp) (by simp) (by simp) hm
  have hl' : Linked out flight first (x.cmd.checkQueryRecvComplete x.buffer) :=
    hl.congr _ (by simp) (by simp) hm
  have key : Acted (Faithful p reply) p reply out flight first
      (if (x.cmd.checkQueryRecvComplete x.buffer).backend.error then
        if !(x.cmd.checkQueryRecvComplete x.buffer).queryRecvComplete then
          ({ x with cmd := x.cmd.checkQueryRecvComplete x.buffer }, true)
        else if x.first then
          (tryWriteReply { x with cmd := x.cmd.checkQueryRecvComplete x.buffer }, false)
        else ({ x with cmd := x.cmd.checkQueryRecvComplete x.buffer }, false)
      else (writeUnprocessed { x with cmd := x.cmd.checkQueryRecvComplete x.buffer },
        false)).1 := by
    split
    next =>
      split
      next => exact .quiet (Or.inl he) hs hl'
      next hc =>
        split
        next hx =>
          exact tryWriteReply_acted faithful_writable hs hl' he (hf ▸ hx) (by simpa using hc)
        next => exact .quiet (Or.inl he) hs hl'
    next herr =>
      have herr' : x.cmd.backend.noRecycle = false := by simpa [BackendConn.error] using herr
      have hphase : x.cmd.backend.received = [] ∧ x.cmd.backend.isReadingReply = false := by
        rcases h with h | ⟨h, _⟩
        · rcases h.phase with hp | ⟨_, hc⟩
          · exact hp
          · simp [hq] at hc
        · have := h.error
          simp [herr'] at this
      exact writeUnprocessed_acted (x := { x with cmd := x.cmd.checkQueryRecvComplete x.buffer })
        hs hl' he (by simpa using herr') (by simpa using hphase.1) (by simpa using hphase.2)
  unfold continueWriteQuery
  cases hk : x.cmd.kind with
  | redisBasic => simp [queryRecvComplete, hk] at hq
  | memcBasic => simp [queryRecvComplete, hk] at hq
  | redisSet => exact key
  | memcSet => exact key

theorem parseUnparsedPart_acted (h : Faithful p reply out x.cmd)
    (hl : Linked out flight first x.cmd) (he : x.effects = []) :
    Acted (Faithful p reply) p reply out flight first
      (if (parseUnparsedPart x).2 then (parseUnparsedPart x).1
        else (parseUnparsedPart x).1.emit .abort) := by
  unfold parseUnparsedPart
  cases hk : x.cmd.kind with
  | redisSet =>
    cases hloop : parseUnparsedLoop x.cmd.unparsedBulks x.buffer with
    | none => exact .stopped (by simp [Ctx.emit, he]) (Or.inr (Or.inr rfl))
    | some r =>
      obtain ⟨buffer, n, ok⟩ := r
      cases ok with
      | true =>
        exact .quiet (Or.inl he)
          (h.congr { x.cmd with unparsedBulks := n } rfl rfl rfl id)
          (hl.congr { x.cmd with unparsedBulks := n } rfl rfl id)
      | false => exact .stopped (by simp [Ctx.emit, he]) (Or.inl rfl)
  | redisBasic => exact .quiet (Or.inl he) h hl
  | memcBasic => exact .quiet (Or.inl he) h hl
  | memcSet => exact .quiet (Or.inl he) h hl

theorem startWriteReply_acted (h : Faithful p reply out x.cmd)
    (hl : Linked out flight first x.cmd) (he : x.effects = []) (hf : first = true) :
    Acted (Faithful p reply) p reply out flight first (startWriteReply x) := by
  unfold startWriteReply
  split
  next hq => exact tryWriteReply_acted faithful_writable h hl he hf hq
  next => exact .quiet (Or.inl he) h hl

/-- The bytes in front of the processed offset while a client write is in flight. -/
def front (w : World (SingleCommand ε)) : Option Bytes :=
  w.writing.map fun _ => w.cmd.backend.buffer.passed

/-- What holds of the calls of `WriteReply`, also when the command is gone. -/
structure History (p : ProtocolType) (reply : Bytes) (w : World (SingleCommand ε)) : Prop where
  bytes : w.out <+: reply ∨ ∃ ec, w.out <+: errorReply p ec
  calls : ∀ call ∈ w.calls,
    call.first = true ∧ call.overlapping = false ∧ call.queryReceived = true
  rotatedWriting : w.rotatedWriting = false

structure Inv (p : ProtocolType) (reply : Bytes) (w : World (SingleCommand ε)) : Prop
    extends History p reply w where
  whole : w.rotated = true →
    w.writing = none ∧ (w.out = reply ∨ ∃ ec, w.out = errorReply p ec)
  state : w.aborted = false → w.crashed = false →
    Faithful p reply w.out w.cmd ∧ Linked w.out (front w) w.first w.cmd
  flying : w.aborted = false → w.crashed = false → ∀ bytes ∈ front w,
    ∃ call, w.calls.getLast? = some call ∧ call.data <:+ bytes
  fresh : w.started = false → w.cmd.backend.noRecycle = false ∧ w.cmd.backend.received = [] ∧
    w.cmd.backend.isReadingReply = false ∧ w.writing = none

/-- A write that goes on leaves the bytes in front as they are. -/
structure Follows (w w' : World (SingleCommand ε)) : Prop where
  calls : w.calls <+: w'.calls
  stays : w'.aborted = false → w'.crashed = false → w'.calls = w.calls →
    w'.writing.isSome = true → front w' = front w

theorem Faithful.bytes (h : Faithful p reply out c) :
    out <+: reply ∨ ∃ ec, out <+: errorReply p ec := by
  rcases h with h | ⟨h, -⟩
  · left
    have hr := h.answer
    rw [h.received] at hr
    exact (List.prefix_append _ _).trans hr
  · right
    obtain ⟨ec, hec⟩ := h.line
    exact ⟨ec, hec ▸ List.prefix_append _ _⟩

section Run
variable {w w' : World (SingleCommand ε)} {buf : ReadBuffer}
  {f : Ctx (SingleCommand ε) → Ctx (SingleCommand ε)}

theorem front_isSome : (front w).isSome = w.writing.isSome := Option.isSome_map

theorem front_of_linked (hl : Linked out (front w) first c) :
    front { w with cmd := c } = front w := by
  cases hw : w.writing with
  | none => simp [front, hw]
  | some b =>
    have hp := hl.passed w.cmd.backend.buffer.passed (by simp [front, hw])
    simp [front, hw, hp]

theorem run_inv (hh : History p reply w) (hw : w.live) (hs : w.started = true)
    (hfly : ∀ bytes ∈ front w, ∃ call, w.calls.getLast? = some call ∧ call.data <:+ bytes)
    (hx : Acted (Faithful p reply) p reply w.out (front w) w.first
      (f ⟨buf, w.first, w.cmd, []⟩)) :
    Inv p reply (w.run handlers buf f) ∧ Follows w (w.run handlers buf f) := by
  obtain ⟨hr, ha, hc⟩ := hw
  unfold World.run
  cases hx with
  | quiet he hst hl =>
    have hrun : ((f ⟨buf, w.first, w.cmd, []⟩).effects.foldl (World.apply handlers)
        { w with cmd := (f ⟨buf, w.first, w.cmd, []⟩).cmd }) =
        { w with cmd := (f ⟨buf, w.first, w.cmd, []⟩).cmd } := by
      rcases he with he | he <;> rw [he] <;> rfl
    have hfront := front_of_linked hl
    simp only [hrun]
    refine ⟨⟨⟨hh.bytes, hh.calls, hh.rotatedWriting⟩, by simp [hr], fun _ _ => ⟨hst, ?_⟩,
      fun _ _ => ?_, by simp [hs]⟩, List.prefix_rfl, fun _ _ _ _ => hfront⟩
    · rw [hfront]
      exact hl
    · rw [hfront]
      exact hfly
  | @wrote data he hwr hst hl hd hsuffix =>
    simp only [he, List.foldl_cons, List.foldl_nil, World.apply]
    have hout : ∀ call : ReplyCall, call.data = data →
        (w.calls ++ [call]).flatMap ReplyCall.data = w.out ++ data := by
      rintro call rfl
      simp [World.out]
    refine ⟨⟨⟨?_, ?_, hh.rotatedWriting⟩, by simp [hr], fun _ _ => ?_, fun _ _ bytes hbytes => ?_,
      by simp [hs]⟩, List.prefix_append _ _, fun _ _ hsame _ => ?_⟩
    · simp only [World.out, hout]
      exact hst.bytes
    · intro call hcall
      rcases List.mem_append.mp hcall with hcall | hcall
      · exact hh.calls call hcall
      · obtain rfl := List.mem_singleton.mp hcall
        obtain ⟨hf, hq⟩ := hl.owner (by simp [hd])
        exact ⟨hf, by rw [← front_isSome, hwr]; rfl, hq⟩
    · simp only [World.out, hout]
      exact ⟨hst, hl⟩
    · obtain rfl := Option.some.inj hbytes
      exact ⟨_, List.getLast?_concat, hsuffix⟩
    · simp at hsame
  | rotated he hwr hst hl ho =>
    have hnone : w.writing = none := by
      rw [← Option.not_isSome_iff_eq_none, ← front_isSome, hwr]
      decide
    have hfront := front_of_linked hl
    simp only [he, List.foldl_cons, List.foldl_nil, World.apply]
    refine ⟨⟨⟨hh.bytes, hh.calls, ?_⟩, fun _ => ⟨hnone, ho⟩, fun _ _ => ⟨hst, ?_⟩, fun _ _ => ?_,
      by simp [hs]⟩, List.prefix_rfl, fun _ _ _ _ => hfront⟩
    · simp [hh.rotatedWriting, hnone]
    · rw [← hfront] at hl
      exact hl
    · rw [← hfront] at hfly
      exact hfly
  | @stopped e he hk =>
    simp only [he, List.foldl_cons, List.foldl_nil]
    rcases hk with rfl | rfl | rfl
    · exact ⟨⟨⟨hh.bytes, hh.calls, hh.rotatedWriting⟩, by simp [World.apply, hr],
        by simp [World.apply], by simp [World.apply], by simp [World.apply, hs]⟩,
        List.prefix_rfl, by simp [World.apply]⟩
    · exact ⟨⟨⟨hh.bytes, hh.calls, hh.rotatedWriting⟩, by simp [World.apply, hr],
        by simp [World.apply], by simp [World.apply], by simp [World.apply, hs]⟩,
        List.prefix_rfl, by simp [World.apply]⟩
    · exact ⟨⟨⟨hh.bytes, hh.calls, hh.rotatedWriting⟩, by simp [World.apply, hr],
        by simp [World.apply], by simp [World.apply], by simp [World.apply, hs]⟩,
        List.prefix_rfl, by simp [World.apply]⟩

/-- What the one backend of the command may send: parts of `reply`. -/
def replies (reply : Bytes) : World.Answers (SingleCommand ε) := fun _ _ bytes => bytes <+: reply

instance (reply : Bytes) (c : SingleCommand ε) (b : ℕ) (bytes : Bytes) :
    Decidable (replies reply c b bytes) := inferInstanceAs (Decidable (_ <+: _))

theorem Follows.of_none (h : Follows { w with writing := none } w') : Follows w w' := by
  refine ⟨h.calls, fun ha hc hsame hw => ?_⟩
  have hsome := congrArg Option.isSome (h.stays ha hc hsame hw)
  rw [front_isSome, hw] at hsome
  cases hsome

theorem step_preserves_inv (hr : IsReply p reply) {e : World.Event} (h : Inv p reply w)
    (hen : World.Enabled handlers (replies reply) w e) :
    Inv p reply (w.next handlers e) ∧ Follows w (w.next handlers e) := by
  have live : w.live → Faithful p reply w.out w.cmd ∧
      Linked w.out (front w) w.first w.cmd := fun hw => h.state hw.2.1 hw.2.2
  have hist : History p reply w := h.toHistory
  have begun : w.writing.isSome = true → w.started = true := by
    intro hsome
    by_contra hs
    simp [(h.fresh (by simpa using hs)).2.2.2] at hsome
  cases e with
  | start buf =>
    obtain ⟨hw, hs⟩ := hen
    obtain ⟨hf, hl⟩ := live hw
    obtain ⟨hn, hrec, hread, _⟩ := h.fresh hs
    simp only [World.next]
    refine (run_inv (w := { w with started := true })
      ⟨hist.bytes, hist.calls, hist.rotatedWriting⟩ hw rfl (h.flying hw.2.1 hw.2.2) ?_).imp_right
      fun hfollows => ⟨hfollows.calls, hfollows.stays⟩
    exact startWriteQuery_acted (x := ⟨buf, w.first, w.cmd, []⟩) hf hl rfl hn hrec hread
  | parse buf =>
    obtain ⟨hw, hs, hq⟩ := hen
    obtain ⟨hf, hl⟩ := live hw
    simp only [World.next]
    refine run_inv hist hw hs (h.flying hw.2.1 hw.2.2) ?_
    exact parseUnparsedPart_acted (x := ⟨buf, w.first, w.cmd, []⟩) hf hl rfl
  | continue_ buf =>
    obtain ⟨hw, hs, hq⟩ := hen
    obtain ⟨hf, hl⟩ := live hw
    simp only [World.next]
    refine run_inv hist hw hs (h.flying hw.2.1 hw.2.2) ?_
    exact continueWriteQuery_acted (x := ⟨buf, w.first, w.cmd, []⟩) hf hl rfl rfl hq
  | process buf =>
    obtain ⟨hw, hs, hq⟩ := hen
    obtain ⟨hf, hl⟩ := live hw
    simp only [World.next]
    refine run_inv hist hw hs (h.flying hw.2.1 hw.2.2) ?_
    exact .quiet (Or.inl rfl) hf hl
  | becomeFirst buf =>
    obtain ⟨hw, hs, _⟩ := hen
    obtain ⟨hf, hl⟩ := live hw
    refine (run_inv (w := { w with first := true }) ⟨hist.bytes, hist.calls, hist.rotatedWriting⟩
      hw hs (h.flying hw.2.1 hw.2.2) ?_).imp_right fun hfollows => ⟨hfollows.calls, hfollows.stays⟩
    refine startWriteReply_acted (x := ⟨buf, true, w.cmd, []⟩) hf ?_ rfl rfl
    exact ⟨hl.isWriting, hl.hasWrittenSome, fun ho => ⟨rfl, (hl.owner ho).2⟩, hl.nonempty,
      hl.passed⟩
  | backend buf b ev =>
    obtain ⟨hw, hs, c, hc, hev, hans⟩ := hen
    obtain ⟨hf, hl⟩ := live hw
    obtain rfl : b = 0 := by
      by_contra hb
      simp [handlers, hb] at hc
    obtain rfl : w.cmd.backend = c := by simpa [handlers] using hc
    refine run_inv hist hw hs (h.flying hw.2.1 hw.2.2) ?_
    exact onBackend_acted (x := ⟨buf, w.first, w.cmd, []⟩) hf hl rfl rfl hr hev hans
  | writeDone buf =>
    obtain ⟨hw, hsome⟩ := hen
    obtain ⟨hf, hl⟩ := live hw
    obtain ⟨b, hb⟩ := Option.isSome_iff_exists.mp hsome
    simp only [World.next, hb]
    refine (run_inv (w := { w with writing := none }) ⟨hist.bytes, hist.calls, hist.rotatedWriting⟩
      hw (begun hsome) (fun _ hnone => by cases hnone) ?_).imp_right Follows.of_none
    exact onWriteReplyFinished_acted (x := ⟨buf, w.first, w.cmd, []⟩) hf hl
      (front_isSome.trans hsome) rfl
  | writeFailed buf =>
    obtain ⟨hw, hsome⟩ := hen
    obtain ⟨b, hb⟩ := Option.isSome_iff_exists.mp hsome
    simp only [World.next, hb]
    refine (run_inv (w := { w with writing := none }) ⟨hist.bytes, hist.calls, hist.rotatedWriting⟩
      hw (begun hsome) (fun _ hnone => by cases hnone) ?_).imp_right Follows.of_none
    exact .stopped rfl (Or.inl rfl)

theorem live_of_enabled {e : World.Event} (hen : World.Enabled handlers (replies reply) w e) :
    w.live := by
  cases e <;> exact hen.1

theorem run_follows (hr : IsReply p reply) (hi : Inv p reply w)
    (hrun : Transition.Execution (World.system handlers (replies reply)) Transition.Unrestricted
      w w') : Inv p reply w' ∧ Follows w w' := by
  refine hrun.invariant (I := fun v => Inv p reply v ∧ Follows w v)
    ⟨hi, List.prefix_rfl, fun _ _ _ _ => rfl⟩ ?_
  rintro v e ⟨hv, hfollows⟩ hen -
  obtain ⟨hnext, hstep⟩ := step_preserves_inv hr hv hen
  refine ⟨hnext, hfollows.calls.trans hstep.calls, fun ha hc hsame hw => ?_⟩
  have hcalls : v.calls = w.calls := by
    refine (hfollows.calls.eq_of_length (Nat.le_antisymm hfollows.calls.length_le ?_)).symm
    rw [← hsame]
    exact hstep.calls.length_le
  obtain ⟨-, hlive⟩ := live_of_enabled hen
  have hfront := hstep.stays ha hc (hsame.trans hcalls.symm) hw
  refine hfront.trans (hfollows.stays hlive.1 hlive.2 hcalls ?_)
  rw [← front_isSome, ← hfront, front_isSome]
  exact hw

end Run

section Reachable
variable {kind : SingleKind} {n : ℕ} {ep : ε} {data : Bytes} {opened first : Bool}

/-- A run of the command from its construction, with a backend that sends `reply`. -/
def Run (kind : SingleKind) (n : ℕ) (ep : ε) (data : Bytes) (opened first : Bool) (reply : Bytes) :
    World (SingleCommand ε) → Prop :=
  Transition.Execution (World.system handlers (replies reply)) Transition.Unrestricted
    (World.init (new kind n (.allocated ep data opened)) first)

theorem init_inv (hd : AcceptedBufferSize data.length) (hr : IsReply kind.protocol reply) :
    Inv kind.protocol reply (World.init (new kind n (.allocated ep data opened)) first) := by
  obtain ⟨hlo, hhi⟩ := hd.bounds
  refine ⟨⟨Or.inl (List.nil_prefix), by simp [World.init], rfl⟩, by simp [World.init],
    fun _ _ => ⟨Or.inl ?_, rfl, ?_, ?_, nofun, nofun⟩, fun _ _ => nofun,
    fun _ => ⟨rfl, rfl, rfl, rfl⟩⟩
  · have hq : (ReadBuffer.new data).queued = [] := by simp [ReadBuffer.new, ReadBuffer.queued]
    refine ⟨rfl, ReadBuffer.new_valid hhi, ?_, rfl, ?_, List.nil_prefix, ?_, Or.inl ⟨rfl, rfl, ?_⟩,
      Or.inl ⟨rfl, rfl⟩, Nat.zero_le _⟩
    · simp only [World.init, new, BackendConn.allocated, ReadBuffer.new]
      omega
    · simpa [World.init, World.out, new, BackendConn.allocated] using hq.symm
    · simpa [World.init, new, BackendConn.allocated] using hr.ne_nil.symm
    · exact hr.ne_nil.symm
  · simp [World.init, World.out, new, ReplyState.idle]
  · simp [World.init, World.out]

theorem reachable_inv (hd : AcceptedBufferSize data.length) (hr : IsReply kind.protocol reply)
    {w : World (SingleCommand ε)} (h : Run kind n ep data opened first reply w) :
    Inv kind.protocol reply w :=
  (run_follows hr (init_inv hd hr) h).1

/-- The client gets the backend's reply or one error line, never a mixture. The end of the
reply is noticed with its last byte, and the command is rotated out after the whole. The bytes of
a write in flight stand in front of the processed offset and stay there until it is over. -/
theorem reply_integrity (hd : AcceptedBufferSize data.length) (hr : IsReply kind.protocol reply)
    {w : World (SingleCommand ε)} (h : Run kind n ep data opened first reply w) :
    (w.out <+: reply ∨ ∃ ec, w.out <+: errorReply kind.protocol ec) ∧
    (w.aborted = false → w.crashed = false → w.cmd.backend.error = false →
      (w.cmd.backend.replyRecvComplete = true ↔ w.cmd.backend.received = reply)) ∧
    (w.rotated = true → w.writing = none ∧
      (w.out = reply ∨ ∃ ec, w.out = errorReply kind.protocol ec)) ∧
    (w.aborted = false → w.crashed = false → w.writing.isSome = true →
      ∃ call, w.calls.getLast? = some call ∧ call.data <:+ w.cmd.backend.buffer.passed) ∧
    ∀ w', Transition.Execution (World.system handlers (replies reply)) Transition.Unrestricted w
      w' →
      w'.aborted = false → w'.crashed = false → w'.calls = w.calls → w'.writing.isSome = true →
      w'.cmd.backend.buffer.passed = w.cmd.backend.buffer.passed := by
  have hi := reachable_inv hd hr h
  refine ⟨hi.bytes, fun ha hc he => ?_, hi.whole, fun ha hc hw => ?_,
    fun w' hrun ha hc hsame hw => ?_⟩
  · rcases (hi.state ha hc).1 with hf | ⟨hs, _⟩
    · exact hf.complete
    · have := hs.error
      simp only [BackendConn.error] at he
      simp [he] at this
  · obtain ⟨b, hb⟩ := Option.isSome_iff_exists.mp hw
    exact hi.flying ha hc _ (by rw [front, hb]; rfl)
  · have hfront := (run_follows hr hi hrun).2.stays ha hc hsame hw
    obtain ⟨b', hb'⟩ := Option.isSome_iff_exists.mp hw
    rw [front, hb'] at hfront
    obtain ⟨_, -, hpassed⟩ := Option.map_eq_some_iff.mp hfront.symm
    exact hpassed.symm

end Reachable

/-- A `get` that is answered with a bulk in two parts, the second one while the first is written. -/
def okRun : List World.Event :=
  let buf := ReadBuffer.new []
  [.start buf, .backend buf 0 .queryWritten, .backend buf 0 (.replyRead (ascii "$4\r\nab")),
    .backend buf 0 (.replyRead (ascii "cd\r\n")), .writeDone buf, .writeDone buf]

def okInit : World (SingleCommand Unit) :=
  World.init (new .redisBasic 0 (.allocated () (List.replicate 1024 0) true)) true

def okReply : Bytes := ascii "$4\r\nabcd\r\n"

/-- After the first `n` events. -/
def okState (n : ℕ) : World (SingleCommand Unit) :=
  Transition.runTrace (World.system handlers (replies okReply)) okInit (okRun.take n)

theorem okState_run (n : ℕ) (hn : n ≤ 6) :
    Run .redisBasic 0 () (List.replicate 1024 0) true true okReply (okState n) := by
  have hvalid : ∀ n ≤ 6, Transition.ValidTrace (World.system handlers (replies okReply))
      Transition.Unrestricted okInit (okRun.take n) := by
    decide +kernel
  exact (hvalid n hn).execution .refl

theorem okRun_integrity :
    Run .redisBasic 0 () (List.replicate 1024 0) true true okReply (okState 4) ∧
    (okState 4).writing.isSome = true ∧
    (∃ call, (okState 4).calls.getLast? = some call ∧
      call.data <:+ (okState 4).cmd.backend.buffer.passed) ∧
    Run .redisBasic 0 () (List.replicate 1024 0) true true okReply (okState 6) ∧
    (okState 6).rotated = true ∧ (okState 6).writing = none ∧
    ((okState 6).out = okReply ∨ ∃ ec, (okState 6).out = errorReply .redis ec) := by
  have hflight : (okState 4).aborted = false ∧ (okState 4).crashed = false ∧
      (okState 4).writing.isSome = true := by
    decide +kernel
  have hrot : (okState 6).rotated = true := by decide +kernel
  have hsize : AcceptedBufferSize (List.replicate 1024 (0 : UInt8)).length :=
    ⟨0, by decide, List.length_replicate⟩
  have hreply : IsReply SingleKind.redisBasic.protocol okReply :=
    @IsReply.item (some (ascii "abcd")) (by decide)
  have h₄ := reply_integrity hsize hreply (okState_run 4 (by decide))
  have h₆ := reply_integrity hsize hreply (okState_run 6 (by decide))
  exact ⟨okState_run 4 (by decide), hflight.2.2, h₄.2.2.2.1 hflight.1 hflight.2.1 hflight.2.2,
    okState_run 6 (by decide), hrot, h₆.2.2.1 hrot⟩

end SingleCommand
end Yarmproxy

import Yarmproxy.CommandLocks
import Yarmproxy.SingleRequests

/-! # What a command hands to its backend

A command with one backend hands its request over piece by piece: `handed` are the bytes it has
written and is writing. The handlers on the reply side do not touch them, and as long as the
backend does not fail they wait until the request has been written. -/
namespace Yarmproxy

variable {ε : Type}

/-- Where the bytes of an operation lie in the client buffer, and the bytes. -/
def QueryOp.span : QueryOp → Option ℕ × Bytes
  | .connecting at_ data | .writing at_ data => (at_, data)
  | .refused => (none, [])

namespace BackendConn
variable {c c' : BackendConn ε}

/-- Nothing has happened to the query, and nothing has been read. -/
structure SameTraffic (c c' : BackendConn ε) : Prop where
  side : c'.writeSide = c.writeSide
  sent : c'.sent = c.sent
  received : c'.received = c.received

theorem SameTraffic.trans {c'' : BackendConn ε} (h : SameTraffic c c') (h' : SameTraffic c' c'') :
    SameTraffic c c'' :=
  ⟨h'.side.trans h.side, h'.sent.trans h.sent, h'.received.trans h.received⟩

theorem sameTraffic_tryReadMoreReply : SameTraffic c c.tryReadMoreReply := by
  unfold tryReadMoreReply
  split <;> exact ⟨rfl, rfl, rfl⟩

theorem sameTraffic_tryWriteReply (b : ℕ) (r : ReplyState) :
    SameTraffic c (tryWriteReply b c r).1 := by
  unfold tryWriteReply
  dsimp only
  split <;> exact ⟨rfl, rfl, rfl⟩

theorem sameTraffic_parseReply {p : ProtocolType} {ok : Bool} (h : c.parseReply p = some (c', ok)) :
    SameTraffic c c' := by
  obtain ⟨done, b, rfl⟩ := parseReply_eq h
  exact ⟨rfl, rfl, rfl⟩

end BackendConn

namespace SingleCommand

/-- The bytes that are being written to the backend. -/
def inFlight (c : SingleCommand ε) : Bytes := (c.backend.query.map fun op => op.span.2).getD []

def handed (c : SingleCommand ε) : Bytes := c.backend.sent ++ c.inFlight

/-- How a command looks to which its backend has not answered. -/
structure Silent (c : SingleCommand ε) : Prop where
  isWriting : c.reply.isWriting = false
  unprocessed : c.backend.buffer.unprocessedBytes = 0
  noRecycle : c.backend.noRecycle = false

/-- The reply is read behind the request. -/
structure Orderly (c : SingleCommand ε) : Prop where
  aborted : c.backend.aborted = false
  reading : c.backend.isReadingReply = true ∨ c.backend.received ≠ [] →
    c.queryRecvComplete = true ∧ c.backend.query = none
  silent : c.backend.received = [] → c.Silent

/-- A handler that leaves the request alone. -/
structure Keeps (c c' : SingleCommand ε) : Prop where
  core : outline.core c' = outline.core c
  handed : c'.handed = c.handed
  span : c'.backend.query = none ∨
    c'.backend.query.map QueryOp.span = c.backend.query.map QueryOp.span
  orderly : c.Orderly → c'.Orderly

section Keeps
variable {c c' : SingleCommand ε} {x : Ctx (SingleCommand ε)}

theorem Keeps.refl (c : SingleCommand ε) : c.Keeps c := ⟨rfl, rfl, .inr rfl, id⟩

theorem complete_of_core (h : outline.core c' = outline.core c) :
    c'.queryRecvComplete = c.queryRecvComplete := conduct.complete c c' h

theorem Keeps.complete (h : c.Keeps c') : c'.queryRecvComplete = c.queryRecvComplete :=
  complete_of_core h.core

theorem Keeps.trans {c'' : SingleCommand ε} (h : c.Keeps c') (h' : c'.Keeps c'') : c.Keeps c'' := by
  refine ⟨h'.core.trans h.core, h'.handed.trans h.handed, ?_, fun ho => h'.orderly (h.orderly ho)⟩
  rcases h'.span with hnone | hsame
  · exact .inl hnone
  rcases h.span with hnone | hsame'
  · rw [hnone, Option.map_none, Option.map_eq_none_iff] at hsame
    exact .inl hsame
  · exact .inr (hsame.trans hsame')

/-- The reply side of a command whose backend has answered. -/
structure SameQuery (c c' : SingleCommand ε) : Prop where
  core : outline.core c' = outline.core c
  traffic : c.backend.SameTraffic c'.backend

theorem SameQuery.trans {c'' : SingleCommand ε} (h : SameQuery c c') (h' : SameQuery c' c'') :
    SameQuery c c'' := ⟨h'.core.trans h.core, h.traffic.trans h'.traffic⟩

theorem SameQuery.query (h : SameQuery c c') : c'.backend.query = c.backend.query :=
  congrArg WriteSide.query h.traffic.side

theorem SameQuery.orderly (h : SameQuery c c') (ho : c.Orderly) (hr : c.backend.received ≠ []) :
    c'.Orderly := by
  obtain ⟨hc, hq⟩ := ho.reading (.inr hr)
  refine ⟨?_, fun _ => ⟨(complete_of_core h.core).trans hc, h.query.trans hq⟩, fun hr' => ?_⟩
  · exact (congrArg WriteSide.aborted h.traffic.side).trans ho.aborted
  · exact absurd (h.traffic.received.symm.trans hr') hr

theorem SameQuery.keeps (h : SameQuery c c') (hr : c.backend.received ≠ []) : c.Keeps c' := by
  refine ⟨h.core, ?_, .inr (by rw [h.query]), fun ho => h.orderly ho hr⟩
  rw [SingleCommand.handed, SingleCommand.handed, inFlight, inFlight, h.query, h.traffic.sent]

theorem tryWriteReply_sameQuery (x : Ctx (SingleCommand ε)) :
    SameQuery x.cmd (tryWriteReply x).cmd :=
  ⟨rfl, BackendConn.sameTraffic_tryWriteReply 0 x.cmd.reply⟩

theorem startWriteReply_sameQuery (x : Ctx (SingleCommand ε)) :
    SameQuery x.cmd (startWriteReply x).cmd := by
  unfold startWriteReply
  split
  · exact tryWriteReply_sameQuery x
  · exact ⟨rfl, rfl, rfl, rfl⟩

theorem onReplyError_sameQuery (ec : ErrorCode) (x : Ctx (SingleCommand ε)) :
    SameQuery x.cmd (onReplyError ec x).cmd := by
  have hs : SameQuery x.cmd { x.cmd with
      backend := x.cmd.backend.substitute (errorReply x.cmd.kind.protocol ec) } :=
    ⟨rfl, rfl, rfl, rfl⟩
  unfold onReplyError
  split
  · exact ⟨rfl, rfl, rfl, rfl⟩
  unfold onBackendRecoverableError
  dsimp only
  split
  · split
    · exact hs.trans (tryWriteReply_sameQuery { x with cmd := _ })
    · exact hs
  · split <;> exact hs

theorem onBackendReplyReceived_sameQuery (ec : ErrorCode) (x : Ctx (SingleCommand ε)) :
    SameQuery x.cmd (onBackendReplyReceived ec x).cmd := by
  unfold onBackendReplyReceived
  split
  · exact onReplyError_sameQuery ec x
  split
  · exact ⟨rfl, rfl, rfl, rfl⟩
  next c ok hp =>
    have hs : SameQuery x.cmd { x.cmd with backend := c } :=
      ⟨rfl, BackendConn.sameTraffic_parseReply hp⟩
    refine hs.trans ?_
    dsimp only
    split
    · unfold forwardReply
      dsimp only
      have hread : ∀ c : SingleCommand ε, SameQuery c
          { c with backend := c.backend.tryReadMoreReply } :=
        fun c => ⟨rfl, BackendConn.sameTraffic_tryReadMoreReply⟩
      split
      · exact (tryWriteReply_sameQuery { x with cmd := _ }).trans (hread _)
      · exact hread _
    · exact onReplyError_sameQuery .protocol { x with cmd := _ }

theorem onWriteReplyFinished_sameQuery (ec : ErrorCode) (x : Ctx (SingleCommand ε)) :
    SameQuery x.cmd (onWriteReplyFinished ec x).cmd := by
  unfold onWriteReplyFinished
  split
  · exact ⟨rfl, rfl, rfl, rfl⟩
  split
  · exact ⟨rfl, rfl, rfl, rfl⟩
  dsimp only
  split
  · split <;> exact ⟨rfl, rfl, rfl, rfl⟩
  · have hread : x.cmd.backend.SameTraffic
        { x.cmd.backend with buffer := x.cmd.backend.buffer.decRecycleLock } := ⟨rfl, rfl, rfl⟩
    have hs := tryWriteReply_sameQuery { x with cmd := { x.cmd with
      backend := BackendConn.tryReadMoreReply
        { x.cmd.backend with buffer := x.cmd.backend.buffer.decRecycleLock }
      reply := { x.cmd.reply with isWriting := false } } }
    exact ⟨hs.core, (hread.trans BackendConn.sameTraffic_tryReadMoreReply).trans hs.traffic⟩

theorem startWriteReply_keeps (ho : x.cmd.Orderly) : x.cmd.Keeps (startWriteReply x).cmd := by
  by_cases hr : x.cmd.backend.received = []
  · have hskip : (startWriteReply x).cmd = x.cmd := by
      unfold startWriteReply
      split
      · rw [tryWriteReply, tryWriteReply_skip (.inr (ho.silent hr).unprocessed)]
      · rfl
    rw [hskip]
    exact .refl _
  · exact (startWriteReply_sameQuery x).keeps hr

theorem onWriteReplyFinished_keeps (ec : ErrorCode) (ho : x.cmd.Orderly) :
    x.cmd.Keeps (onWriteReplyFinished ec x).cmd := by
  by_cases hr : x.cmd.backend.received = []
  · have hskip : (onWriteReplyFinished ec x).cmd = x.cmd := by
      unfold onWriteReplyFinished
      split
      · rfl
      · rw [if_pos (by rw [(ho.silent hr).isWriting]; rfl)]
        rfl
    rw [hskip]
    exact .refl _
  · exact (onWriteReplyFinished_sameQuery ec x).keeps hr

theorem tryWriteReply_quiet (hx : x.effects = []) :
    .tryReadMoreQuery ∉ (tryWriteReply x).effects := by
  simp only [tryWriteReply, Yarmproxy.tryWriteReply, hx, List.nil_append]
  split <;> simp

theorem startWriteReply_quiet (hx : x.effects = []) :
    .tryReadMoreQuery ∉ (startWriteReply x).effects := by
  unfold startWriteReply
  split
  · exact tryWriteReply_quiet hx
  · rw [hx]
    exact List.not_mem_nil

theorem onWriteReplyFinished_quiet (ec : ErrorCode) (hx : x.effects = []) :
    .tryReadMoreQuery ∉ (onWriteReplyFinished ec x).effects := by
  unfold onWriteReplyFinished
  split
  · simp [Ctx.emit, hx]
  split
  · simp [Ctx.emit, hx]
  dsimp only
  split
  · split <;> simp [Ctx.emit, hx]
  · exact tryWriteReply_quiet hx

theorem onBackend_eq {e : BackendEvent} (hs : e.succeeds = true) :
    handlers.onBackend 0 e x = handlers.invoke 0 (x.cmd.backend.handle e).2
      { x with cmd := { x.cmd with backend := (x.cmd.backend.handle e).1 } } := by
  cases e with
  | connected | queryWritten | replyRead chunk => rfl
  | _ => cases hs

theorem not_reading (ho : c.Orderly) (hq : c.backend.query ≠ none) :
    c.backend.isReadingReply = false ∧ c.backend.received = [] := by
  constructor
  · rw [Bool.eq_false_iff]
    exact fun h => hq (ho.reading (.inl h)).2
  · by_contra h
    exact hq (ho.reading (.inr h)).2

theorem connected_keeps (he : x.cmd.backend.Enabled .connected) (ho : x.cmd.Orderly) :
    x.cmd.Keeps (handlers.onBackend 0 .connected x).cmd := by
  obtain ⟨at_, data, hq⟩ := he
  obtain ⟨hread, hrecv⟩ := not_reading ho (by rw [hq]; rintro ⟨⟩)
  have hsilent := ho.silent hrecv
  rw [onBackend_eq rfl]
  simp only [BackendConn.handle, hq, Handlers.invoke]
  refine ⟨rfl, ?_, .inr (by rw [hq]; rfl), fun _ => ⟨ho.aborted, fun h => ?_, fun _ => ?_⟩⟩
  · simp only [SingleCommand.handed, inFlight, hq]
    rfl
  · rcases h with h | h
    · exact absurd (hread.symm.trans h) Bool.false_ne_true
    · exact absurd hrecv h
  · exact ⟨hsilent.isWriting, hsilent.unprocessed, hsilent.noRecycle⟩

theorem queryWritten_keeps (he : x.cmd.backend.Enabled .queryWritten) (ho : x.cmd.Orderly) :
    x.cmd.Keeps (handlers.onBackend 0 .queryWritten x).cmd ∧
      (handlers.onBackend 0 .queryWritten x).cmd.backend.query = none := by
  obtain ⟨at_, data, hq⟩ := he
  obtain ⟨hread, hrecv⟩ := not_reading ho (by rw [hq]; rintro ⟨⟩)
  obtain ⟨hwriting, hbytes, hrecycle⟩ := ho.silent hrecv
  have hhanded : x.cmd.handed = x.cmd.backend.sent ++ data := by
    rw [SingleCommand.handed, inFlight, hq]
    rfl
  rw [onBackend_eq rfl]
  simp only [BackendConn.handle, hq, Handlers.invoke, handlers, onWriteQueryFinished, ne_eq,
    not_true_eq_false, if_false]
  -- the reply is asked for only when the request is complete
  split
  next hc =>
    refine ⟨⟨rfl, ?_, .inl rfl, fun _ => ⟨ho.aborted, fun _ => ⟨hc, rfl⟩, fun _ => ?_⟩⟩, rfl⟩
    · rw [hhanded]
      exact List.append_nil _
    · exact ⟨hwriting, hbytes, hrecycle⟩
  next hc =>
    have hkeeps : x.cmd.Keeps { x.cmd with backend := { x.cmd.backend with
        writeTimerCanceled := true, query := none, sent := x.cmd.backend.sent ++ data } } := by
      refine ⟨rfl, ?_, .inl rfl, fun _ => ⟨ho.aborted, fun h => ?_, fun _ => ?_⟩⟩
      · rw [hhanded]
        exact List.append_nil _
      · rcases h with h | h
        · exact absurd (hread.symm.trans h) Bool.false_ne_true
        · exact absurd hrecv h
      · exact ⟨hwriting, hbytes, hrecycle⟩
    split <;> exact ⟨hkeeps, rfl⟩

theorem replyRead_keeps {chunk : Bytes} (he : x.cmd.backend.Enabled (.replyRead chunk))
    (ho : x.cmd.Orderly) : x.cmd.Keeps (handlers.onBackend 0 (.replyRead chunk) x).cmd ∧
      (handlers.onBackend 0 (.replyRead chunk) x).cmd.backend.query = none := by
  obtain ⟨hread, hchunk, -⟩ := he
  obtain ⟨hc, hq⟩ := ho.reading (.inl hread)
  -- from here on the backend has answered
  have hs := onBackendReplyReceived_sameQuery .success
    { x with cmd := { x.cmd with backend := (x.cmd.backend.handle (.replyRead chunk)).1 } }
  have hne : (x.cmd.backend.handle (.replyRead chunk)).1.received ≠ [] := by
    simp [BackendConn.handle, hchunk]
  have hquery : (x.cmd.backend.handle (.replyRead chunk)).1.query = none := hq
  rw [onBackend_eq rfl]
  show x.cmd.Keeps (onBackendReplyReceived .success _).cmd ∧
    (onBackendReplyReceived .success _).cmd.backend.query = none
  have hnone := hs.query.trans hquery
  refine ⟨⟨hs.core, ?_, .inl hnone,
    fun _ => hs.orderly ⟨ho.aborted, fun _ => ⟨hc, hq⟩, fun h => ?_⟩ hne⟩, hnone⟩
  · rw [SingleCommand.handed, SingleCommand.handed, inFlight, inFlight, hnone, hq, hs.traffic.sent]
    rfl
  · exact absurd h hne

theorem onBackend_keeps {b : ℕ} {e : BackendEvent} {k : BackendConn ε}
    (hk : handlers.backend x.cmd b = some k) (he : k.Enabled e) (hs : e.succeeds = true)
    (ho : x.cmd.Orderly) (hx : x.effects = []) : x.cmd.Keeps (handlers.onBackend b e x).cmd ∧
      (.tryReadMoreQuery ∈ (handlers.onBackend b e x).effects →
        (handlers.onBackend b e x).cmd.backend.query = none) := by
  obtain ⟨rfl, rfl⟩ : b = 0 ∧ x.cmd.backend = k := by
    simp only [handlers] at hk
    split at hk
    · exact ⟨‹_›, Option.some.inj hk⟩
    · cases hk
  cases e with
  | connected =>
    refine ⟨connected_keeps he ho, fun h => ?_⟩
    obtain ⟨at_, data, hq⟩ := he
    rw [onBackend_eq rfl] at h
    simp only [BackendConn.handle, hq, Handlers.invoke, hx] at h
    cases h
  | queryWritten => exact (queryWritten_keeps he ho).imp_right fun h _ => h
  | replyRead chunk => exact (replyRead_keeps he ho).imp_right fun h _ => h
  | _ => cases hs

end Keeps

section Write
variable {x : Ctx (SingleCommand ε)}

/-- A command that can write: nothing is under way, and nothing has come back. -/
structure Idle (c : SingleCommand ε) : Prop where
  aborted : c.backend.aborted = false
  reading : c.backend.isReadingReply = false
  received : c.backend.received = []
  query : c.backend.query = none
  silent : c.Silent

/-- What has been parsed and received is written from where it lies. -/
structure Writes (x y : Ctx (SingleCommand ε)) : Prop where
  core : outline.core y.cmd = outline.core (x.cmd.checkQueryRecvComplete x.buffer)
  handed : y.cmd.handed =
    x.cmd.handed ++ x.buffer.queued.take (min x.buffer.queued.length x.buffer.ahead)
  span : y.cmd.backend.query.map QueryOp.span = some (some x.buffer.processedOffset,
    x.buffer.queued.take (min x.buffer.queued.length x.buffer.ahead))
  buffer : y.buffer = x.buffer.incRecycleLock
  orderly : y.cmd.Orderly
  effects : y.effects = x.effects

theorem checkQueryRecvComplete_eq (c : SingleCommand ε) (buffer : ReadBuffer) :
    ∃ r, c.checkQueryRecvComplete buffer = { c with queryReceived := r } := by
  unfold checkQueryRecvComplete
  split
  · exact ⟨c.queryReceived, rfl⟩
  · exact ⟨c.queryReceived, rfl⟩
  · split
    · exact ⟨true, rfl⟩
    · exact ⟨c.queryReceived, rfl⟩
  · split
    · exact ⟨true, rfl⟩
    · exact ⟨c.queryReceived, rfl⟩

theorem query_writeQuery_open {c : BackendConn ε} (h : c.aborted = false) (at_ : Option ℕ)
    (data : Bytes) : (c.writeQuery at_ data).query.map QueryOp.span = some (at_, data) := by
  unfold BackendConn.writeQuery
  rw [if_neg (by rw [h]; nofun)]
  split <;> rfl

theorem writeUnprocessed_writes (hi : x.cmd.Idle) (hv : x.buffer.Valid) :
    Writes x (writeUnprocessed { x with cmd := x.cmd.checkQueryRecvComplete x.buffer }) := by
  obtain ⟨r, hr⟩ := checkQueryRecvComplete_eq x.cmd x.buffer
  have hun := ReadBuffer.unprocessedBytes_eq hv
  have hdata : x.buffer.incRecycleLock.unprocessedData.bytes
      x.buffer.incRecycleLock.unprocessedBytes =
      x.buffer.queued.take (min x.buffer.queued.length x.buffer.ahead) := by
    rw [← ReadBuffer.unprocessedData_bytes hv (Nat.min_le_left ..), ← hun]
    rfl
  have hquery := query_writeQuery_open hi.aborted (some x.buffer.processedOffset)
    (x.buffer.incRecycleLock.unprocessedData.bytes x.buffer.incRecycleLock.unprocessedBytes)
  obtain ⟨op, opened, timer, hw⟩ := x.cmd.backend.writeQuery_eq (some x.buffer.processedOffset)
    (x.buffer.incRecycleLock.unprocessedData.bytes x.buffer.incRecycleLock.unprocessedBytes)
  have hy : writeUnprocessed { x with cmd := x.cmd.checkQueryRecvComplete x.buffer } =
      { x with
        buffer := x.buffer.incRecycleLock
        cmd := { x.cmd with
          queryReceived := r
          backend := { x.cmd.backend with
            query := some op, socketOpen := opened, writeTimerCanceled := timer } } } := by
    rw [hr, writeUnprocessed]
    simp only [← hw]
    rfl
  rw [hw, hdata] at hquery
  have hspan : op.span = (some x.buffer.processedOffset,
      x.buffer.queued.take (min x.buffer.queued.length x.buffer.ahead)) := Option.some.inj hquery
  rw [hy]
  refine ⟨?_, ?_, hquery, rfl, ⟨hi.aborted, fun h => ?_, fun _ => ?_⟩, rfl⟩
  · rw [hr]
    rfl
  · simp only [handed, inFlight, hi.query, Option.map_some, hspan, Option.getD_some,
      Option.map_none, Option.getD_none, List.append_nil]
  · rcases h with h | h
    · exact absurd (hi.reading.symm.trans h) Bool.false_ne_true
    · exact absurd hi.received h
  · exact ⟨hi.silent.isWriting, hi.silent.unprocessed, hi.silent.noRecycle⟩

theorem startWriteQuery_writes (hi : x.cmd.Idle) (hv : x.buffer.Valid) :
    Writes x (startWriteQuery x).1 := writeUnprocessed_writes hi hv

theorem continueWriteQuery_writes (ho : x.cmd.Orderly) (hv : x.buffer.Valid)
    (hc : x.cmd.queryRecvComplete = false) (hq : x.cmd.backend.query = none) :
    Writes x (continueWriteQuery x).1 ∧ (continueWriteQuery x).2 = false := by
  have hnot : ¬ (x.cmd.backend.isReadingReply = true ∨ x.cmd.backend.received ≠ []) := fun h =>
    absurd (hc.symm.trans (ho.reading h).1) nofun
  rw [not_or, Bool.not_eq_true, not_not] at hnot
  have hsilent := ho.silent hnot.2
  have hwrites := writeUnprocessed_writes ⟨ho.aborted, hnot.1, hnot.2, hq, hsilent⟩ hv
  obtain ⟨r, hr⟩ := checkQueryRecvComplete_eq x.cmd x.buffer
  have herror : (x.cmd.checkQueryRecvComplete x.buffer).backend.error = false := by
    rw [hr]
    exact hsilent.noRecycle
  unfold continueWriteQuery
  split
  next hk => simp [queryRecvComplete, hk] at hc
  next hk => simp [queryRecvComplete, hk] at hc
  all_goals
    dsimp only
    rw [if_neg (by rw [herror]; nofun)]
    exact ⟨hwrites, rfl⟩

theorem idle_new (kind : SingleKind) (missing : ℕ) (ep : ε) (data : Bytes) (opened : Bool) :
    (new kind missing (.allocated ep data opened)).Idle := by
  refine ⟨rfl, rfl, rfl, rfl, rfl, ?_, rfl⟩
  simp [new, BackendConn.allocated, ReadBuffer.unprocessedBytes, ReadBuffer.new, subSize]

end Write

end SingleCommand

theorem bulks_of_agrees {its : List Item} {missing n : ℕ} {d : Bytes} (hle : missing ≤ its.length)
    (hn : n = (serializePrefix its.length).length + itemStart its (its.length - missing))
    (hf : (encodeArray its).length < 2 ^ 31) (ha : Agrees (encodeArray its) d) :
    (its.drop (its.length - missing)).length = missing ∧
      (encodeItems (its.drop (its.length - missing))).length < 2 ^ 31 ∧
      ∃ rest, d.drop n =
        (encodeItems (its.drop (its.length - missing)) ++ rest).take (d.drop n).length := by
  refine ⟨by rw [List.length_drop]; omega, ?_, ?_⟩
  · have hdrop := congrArg List.length (drop_encodeArray its [] (its.length - missing))
    rw [List.append_nil, List.append_nil, List.length_drop] at hdrop
    omega
  · obtain ⟨rest, hd⟩ := ha.content
    refine ⟨rest, ?_⟩
    rw [← drop_encodeArray, ← hn, List.length_drop, ← List.drop_take]
    exact congrArg _ hd

namespace SingleRequest
variable {r : SingleRequest} {missing n m : ℕ} {d : Bytes} {b b' : ReadBuffer}

theorem Marks.startsBulks (h : r.Marks .redisSet missing n) (hf : r.Fits) (ha : Agrees r.bytes d) :
    StartsBulks missing (d.drop n) := by
  cases r with
  | redis its verb =>
    obtain ⟨hlength, hsmall, rest, hbs⟩ := bulks_of_agrees h.1 h.2 hf ha
    exact ⟨_, rest, hlength, hsmall, hbs⟩
  | _ => exact False.elim h

theorem Marks.parse (h : r.Marks .redisSet missing n) (hf : r.Fits) (ha : Agrees r.bytes d)
    (hv : b.Valid) (hb : b.unparsed = d.drop n)
    (hloop : parseUnparsedLoop missing b = some (b', m, true)) :
    ∃ j, b'.ahead = b.ahead + j ∧ r.Marks .redisSet m (n + j) := by
  cases r with
  | redis its verb =>
    obtain ⟨hle, hn⟩ := h
    obtain ⟨hlength, hsmall, rest, hbs⟩ := bulks_of_agrees hle hn hf ha
    rw [← hb] at hbs
    obtain ⟨b₁, m₁, hloop₁, -, hm, -, hahead⟩ := parseUnparsedLoop_items hv hsmall hbs
    rw [hlength] at hloop₁ hm hahead
    obtain ⟨rfl, h₁⟩ := Prod.mk.inj (Option.some.inj (hloop₁.symm.trans hloop))
    obtain ⟨rfl, -⟩ := Prod.mk.inj h₁
    refine ⟨_, hahead, hm.trans hle, ?_⟩
    have hadd := itemStart_add its (its.length - missing) (missing - m₁)
    rw [show its.length - missing + (missing - m₁) = its.length - m₁ by omega] at hadd
    omega
  | _ => exact False.elim h

end SingleRequest

namespace SingleCommand

/-- Of the bytes `d` from the start of its request on, a part has been handed over, and no more
than the request; all of it when the command takes its request for complete. -/
structure HandedOver (d : Bytes) (c : SingleCommand ε) : Prop where
  orderly : c.Orderly
  stream : c.handed <+: d
  within : ∀ r : SingleRequest, r.Fits → Agrees r.bytes d → c.handed <+: r.bytes
  whole : c.queryRecvComplete = true → ∀ r : SingleRequest, r.Fits → Agrees r.bytes d →
    c.handed = r.bytes

section HandedOver
variable {c c' : SingleCommand ε} {d d' : Bytes}

theorem HandedOver.mono (h : HandedOver d c) (hd : d <+: d') : HandedOver d' c :=
  ⟨h.orderly, h.stream.trans hd, fun r hf ha => h.within r hf (ha.mono hd),
    fun hc r hf ha => h.whole hc r hf (ha.mono hd)⟩

theorem HandedOver.keeps (h : HandedOver d c) (hk : c.Keeps c') : HandedOver d c' := by
  refine ⟨hk.orderly h.orderly, ?_, ?_, ?_⟩
  · rw [hk.handed]
    exact h.stream
  · rw [hk.handed]
    exact h.within
  · rw [hk.handed, hk.complete]
    exact h.whole

/-- A write keeps to the request when the bytes behind those handed over are the next in the buffer
and the place that has been parsed to is known. -/
theorem Writes.handedOver {x y : Ctx (SingleCommand ε)} (hw : Writes x y) (hv : x.buffer.Valid)
    (hi : Consistent x.cmd) (hd : d = x.cmd.handed ++ x.buffer.queued)
    (hc : x.cmd.queryRecvComplete = true → x.buffer.ahead ≤ x.buffer.queued.length)
    (hm : ∀ r : SingleRequest, r.Fits → Agrees r.bytes d →
      r.Marks x.cmd.kind x.cmd.unparsedBulks (x.cmd.handed.length + x.buffer.ahead)) :
    HandedOver d y.cmd := by
  have hlen : y.cmd.handed.length =
      x.cmd.handed.length + min x.buffer.queued.length x.buffer.ahead := by
    rw [hw.handed, List.length_append, List.length_take, Nat.min_eq_left (Nat.min_le_left ..)]
  have hstream : y.cmd.handed <+: d := by
    rw [hw.handed, hd, List.prefix_append_right_inj]
    exact List.take_prefix ..
  have hwithin : ∀ r : SingleRequest, r.Fits → Agrees r.bytes d → y.cmd.handed <+: r.bytes := by
    intro r hf ha
    have hle := (hm r hf ha).le
    exact ha.prefix_of_le hstream (by omega)
  refine ⟨hw.orderly, hstream, hwithin, fun hy r hf ha => ?_⟩
  -- the request is complete when all that has been parsed is there
  have hchecked := checkQueryRecvComplete_checked hi x.buffer
  rw [complete_of_core hw.core] at hy
  have hall : x.buffer.ahead ≤ x.buffer.queued.length := by
    rcases hchecked.received hy with hx | hx
    · exact hc hx
    · rw [ReadBuffer.parsedUnreceivedBytes_eq hv] at hx
      omega
  obtain ⟨received, hr⟩ := checkQueryRecvComplete_eq x.cmd x.buffer
  have hbulks : x.cmd.kind = .redisSet → x.cmd.unparsedBulks = 0 := by
    intro hk
    have hinv := hchecked.inv
    rw [hr] at hinv hy
    refine hinv hk ?_
    simpa only [queryRecvComplete, hk] using hy
  have hend := (hm r hf ha).eq hbulks
  exact (hwithin r hf ha).eq_of_length (by omega)

theorem HandedOver.sent (h : HandedOver d c) {r : SingleRequest} (hf : r.Fits)
    (ha : Agrees r.bytes d)
    (hr : c.backend.isReadingReply = true ∨ c.backend.received ≠ []) :
    c.backend.sent = r.bytes := by
  obtain ⟨hcomplete, hquery⟩ := h.orderly.reading hr
  have hwhole := h.whole hcomplete r hf ha
  rw [handed, inFlight, hquery] at hwhole
  simpa using hwhole

end HandedOver
end SingleCommand
end Yarmproxy

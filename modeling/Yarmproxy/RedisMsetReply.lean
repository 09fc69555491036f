import Yarmproxy.Outcome
import Yarmproxy.RedisMsetCommand
import Yarmproxy.Relay

/-! # The one reply of a Redis `MSET`

Every subquery is asked, is being answered, or is done: its reply line has arrived or the line
that stands for its failed connection. The last one left is the one whose line the client gets. -/
namespace Yarmproxy

/-- How a subquery ends. -/
inductive SubqueryOutcome where
  | connectFailure
  | ok
  | error (text : Bytes) (line : ch '\n' ∉ text)

namespace SubqueryOutcome

def okReply : Bytes := ascii "+OK\r\n"

/-- What the client would be told about the subquery. -/
def reply : SubqueryOutcome → Bytes
  | .connectFailure => redisErrorReply .connect
  | .ok => okReply
  | .error text _ => ch '-' :: (text ++ crlf)

def failed : SubqueryOutcome → Bool
  | .ok => false
  | _ => true

def refuses : SubqueryOutcome → Bool
  | .connectFailure => true
  | _ => false

theorem reply_line (o : SubqueryOutcome) : ∃ mark text, mark ∈ [ch '+', ch '-', ch ':'] ∧
    ch '\n' ∉ text ∧ o.reply = mark :: (text ++ crlf) := by
  cases o with
  | connectFailure =>
    exact ⟨ch '-', ascii "Backend Connect Error", by decide, by decide, by decide⟩
  | ok => exact ⟨ch '+', ascii "OK", by decide, by decide, by decide⟩
  | error text line => exact ⟨ch '-', text, by decide, line, rfl⟩

theorem reply_eq_okReply (o : SubqueryOutcome) : o.reply = okReply ↔ o.failed = false := by
  cases o with
  | connectFailure => decide
  | ok => exact ⟨fun _ => rfl, fun _ => rfl⟩
  | error text line =>
    constructor
    · intro h
      have : ch '-' = ch '+' := (List.cons.inj h).1
      exact absurd this (by decide)
    · intro h
      cases h

theorem refuses_iff (o : SubqueryOutcome) : o.refuses = true ↔ o = .connectFailure := by
  cases o <;> simp [refuses]

theorem length_reply_pos (o : SubqueryOutcome) : 0 < o.reply.length := by
  obtain ⟨mark, text, _, _, hr⟩ := o.reply_line
  simp [hr]

end SubqueryOutcome

namespace RedisMsetCommand
variable {ε : Type}

/-- Its query is being written, or it waits for the rest of it. -/
structure Fresh (q : MsetSubquery ε) : Prop where
  phase : q.phase ≠ .readingReply
  relay : Relay [] 0 [] q.backend.buffer
  received : q.backend.received = []
  reading : q.backend.isReadingReply = false
  incomplete : q.backend.replyRecvComplete = false
  noError : q.backend.noRecycle = false

/-- Its query has been sent and a part of the reply line read. -/
structure Listening (q : MsetSubquery ε) : Prop where
  phase : q.phase = .readingReply
  query : q.backend.query = none
  sent : q.queryRecvComplete = true
  relay : Relay q.backend.received 0 [] q.backend.buffer
  incomplete : q.backend.replyRecvComplete = false
  noError : q.backend.noRecycle = false

/-- Its buffer holds the whole line `r`, and nothing is outstanding on it. -/
structure Done (r : Bytes) (q : MsetSubquery ε) : Prop where
  query : q.backend.query = none
  reading : q.backend.isReadingReply = false
  complete : q.backend.replyRecvComplete = true
  relay : Relay r r.length [] q.backend.buffer
  cause : q.backend.noRecycle = true ∨ q.phase = .readingReply

inductive Stage (r : Bytes) (q : MsetSubquery ε) : Prop where
  | fresh : Fresh q → Stage r q
  | listening : Listening q → Stage r q
  | done : Done r q → Stage r q

/-- The subquery whose outcome is told by the line `r`. -/
structure Slot (r : Bytes) (q : MsetSubquery ε) : Prop where
  room : 1024 ≤ q.backend.buffer.bufferSize
  stage : Stage r q

variable {r chunk : Bytes} {q : MsetSubquery ε} {o : SubqueryOutcome}

theorem Slot.fresh (h : Slot r q) (hq : q.backend.query ≠ none) : Fresh q := by
  cases h.stage with
  | fresh hf => exact hf
  | listening hl => exact absurd hl.query hq
  | done hd => exact absurd hd.query hq

theorem Slot.listening (h : Slot r q) (hr : q.backend.isReadingReply = true) : Listening q := by
  cases h.stage with
  | fresh hf => simp [hf.reading] at hr
  | listening hl => exact hl
  | done hd => simp [hd.reading] at hr

theorem Slot.done (h : Slot r q) (he : q.backend.error = true) : Done r q := by
  rw [BackendConn.error] at he
  cases h.stage with
  | fresh hf => simp [hf.noError] at he
  | listening hl => simp [hl.noError] at he
  | done hd => exact hd

theorem Slot.asking (h : Slot r q) (he : q.backend.error = false)
    (hp : q.phase = .readingMoreQuery) :
    Fresh q := by
  rw [BackendConn.error] at he
  cases h.stage with
  | fresh hf => exact hf
  | listening hl => simp [hl.phase] at hp
  | done hd =>
    rcases hd.cause with hc | hc
    · simp [he] at hc
    · simp [hc] at hp

theorem Fresh.not_done (h : Fresh q) :
    ¬ Done r q := fun hd => by simpa [h.incomplete] using hd.complete

theorem Listening.not_done (h : Listening q) : ¬ Done r q :=
  fun hd => by simpa [h.incomplete] using hd.complete

theorem Slot.allocated {data : Bytes} {opened complete : Bool} {ep : ε} {n : ℕ}
    {segments : List Segment} (hd : AcceptedBufferSize data.length) :
    1024 ≤ (BackendConn.allocated ep data opened).buffer.bufferSize ∧
      Fresh ⟨BackendConn.allocated ep data opened, n, .initSendQuery, complete, segments⟩ := by
  obtain ⟨hlo, hhi⟩ := hd.bounds
  refine ⟨hlo, by simp, ⟨ReadBuffer.new_valid hhi, ?_, rfl⟩, rfl, rfl, rfl, rfl⟩
  simp [BackendConn.allocated, ReadBuffer.new, ReadBuffer.queued]

/-- The write side of the connection does not matter to a subquery that is still asked. -/
theorem Fresh.writeQuery (h : Fresh q) {n : ℕ} {phase : MsetPhase} (hp : phase ≠ .readingReply)
    {complete : Bool} {segments : List Segment} (at_ : Option ℕ) (data : Bytes) :
    Fresh ⟨q.backend.writeQuery at_ data, n, phase, complete, segments⟩ := by
  obtain ⟨op, opened, timer, hk⟩ := q.backend.writeQuery_eq at_ data
  rw [hk]
  exact ⟨hp, h.relay, h.received, h.reading, h.incomplete, h.noError⟩

theorem room_writeQuery (k : BackendConn ε) (at_ : Option ℕ) (data : Bytes) :
    (k.writeQuery at_ data).buffer.bufferSize = k.buffer.bufferSize := by
  obtain ⟨op, opened, timer, hk⟩ := k.writeQuery_eq at_ data
  rw [hk]

theorem Fresh.readReply (h : Fresh q) (hq : q.backend.query = none)
    (hc : q.queryRecvComplete = true) :
    Listening { q with phase := .readingReply, backend := q.backend.readReply } := by
  have hr : Relay q.backend.received 0 [] q.backend.buffer := by
    rw [h.received]
    exact h.relay
  exact ⟨rfl, hq, hc, hr.incRecycleLock, h.incomplete, h.noError⟩

theorem Listening.tryReadMoreReply (h : Listening q) :
    Listening { q with backend := q.backend.tryReadMoreReply } := by
  unfold BackendConn.tryReadMoreReply
  split
  next => exact h
  next => exact ⟨h.phase, h.query, h.sent, h.relay.incRecycleLock, h.incomplete, h.noError⟩

theorem room_tryReadMoreReply (k : BackendConn ε) :
    k.tryReadMoreReply.buffer.bufferSize = k.buffer.bufferSize := by
  unfold BackendConn.tryReadMoreReply
  split
  next => rfl
  next => rfl

theorem Listening.replyRead (h : Listening q) (hc : chunk.length ≤ q.backend.buffer.freeSpaceSize) :
    Listening { q with backend := (q.backend.handle (.replyRead chunk)).1 } :=
  ⟨h.phase, h.query, h.sent, h.relay.replyRead hc, h.incomplete, h.noError⟩

theorem Listening.parseReply (h : Listening q) (hr : q.backend.received <+: o.reply)
    (hn : q.backend.received ≠ []) (hread : q.backend.isReadingReply = false) :
    (q.backend.parseReply .redis = some (q.backend, true)) ∨
    ∃ k, q.backend.parseReply .redis = some (k, true) ∧ Done o.reply { q with backend := k } ∧
      k.replyRecvComplete = true ∧ k.buffer.bufferSize = q.backend.buffer.bufferSize := by
  obtain ⟨mark, text, hmark, htext, hline⟩ := o.reply_line
  have hq : q.backend.buffer.queued = q.backend.received := by simpa using h.relay.bytes
  have ha : q.backend.buffer.ahead = 0 := by simpa using h.relay.parsed
  have hp := BackendConn.parseRedisSimpleReply_line h.relay.valid ha hmark htext
    (by rw [hq, ← hline]; exact hr) (by rwa [hq])
  rw [← hline] at hp
  by_cases hw : q.backend.buffer.queued = o.reply
  · rw [if_pos hw] at hp
    refine Or.inr
      ⟨_, hp, ?_, by simp [BackendConn.recognised, hw], by simp [BackendConn.recognised]⟩
    have hlen := h.relay.length_source
    have hrelay := h.relay.updateParsedBytes (n := o.reply.length)
      (by rw [← hq, hw] at hlen; simp only [List.length_nil] at hlen ⊢; omega)
    rw [← hq, hw, Nat.zero_add] at hrelay
    exact ⟨h.query, hread, by simp [BackendConn.recognised, hw], hrelay, Or.inr h.phase⟩
  · rw [if_neg hw] at hp
    exact Or.inl hp

theorem Fresh.substitute (h : Fresh q) (hroom : 1024 ≤ q.backend.buffer.bufferSize)
    (hq : q.backend.query = none) :
    Done (redisErrorReply .connect)
      { q with backend := q.backend.substitute (redisErrorReply .connect) } := by
  refine ⟨hq, h.reading, rfl, ?_, Or.inl rfl⟩
  have hl := (errorReply_length .redis .connect).2
  simp only [errorReply] at hl
  exact Relay.setReplyData h.relay.valid (by omega) true

theorem Done.tryWriteReply (h : Done r q) (hr : 0 < r.length) (b : ℕ) :
    ∃ buffer, Yarmproxy.tryWriteReply b q.backend .idle =
        ({ q.backend with buffer := buffer }, ⟨true, true⟩, [.writeReply r (some b)]) ∧
      Relay r r.length r buffer := by
  have hq : q.backend.buffer.queued = r := by simpa using h.relay.bytes
  have ha : q.backend.buffer.ahead = r.length := by simpa using h.relay.parsed
  have hmin : min q.backend.buffer.queued.length q.backend.buffer.ahead = r.length := by
    rw [hq, ha, Nat.min_self]
  have hw := tryWriteReply_write (b := b) (r := .idle) h.relay.valid rfl (by rw [hmin]; exact hr)
  rw [hmin, hq, List.take_length] at hw
  refine ⟨_, hw, ?_⟩
  have hrelay := h.relay.incRecycleLock.updateProcessedBytes (n := r.length)
    (by simp [hq]) (by simp [ha])
  rw [ReadBuffer.queued_incRecycleLock, hq, List.take_length, List.nil_append] at hrelay
  exact hrelay

@[simp] theorem subquery_setSubquery (c : RedisMsetCommand ε) (b : ℕ) (s : MsetSubquery ε) (i : ℕ) :
    (c.setSubquery b s).subquery i = if i = b then s else c.subquery i :=
  Function.update_apply c.subquery b s i

theorem setBackend_self (c : RedisMsetCommand ε) (b : ℕ) : c.setBackend b (c.backend b) = c := by
  simp [setBackend, setSubquery, backend]

/-- The state of the subqueries; `strict` says whether each of them is also accounted for. -/
structure Gathering (strict : Prop) (outcome : ℕ → SubqueryOutcome) (c : RedisMsetCommand ε) :
    Prop where
  reply : c.reply = .idle
  waiting : ∀ b ∈ c.waitingSubqueries, b < c.count ∧
    1024 ≤ (c.backend b).buffer.bufferSize ∧ Fresh (c.subquery b)
  pending : ∀ b ∈ c.pendingSubqueries, b < c.count ∧ Slot (outcome b).reply (c.subquery b)
  nodup : (c.pendingSubqueries ++ c.waitingSubqueries).Nodup
  received : ∀ b < c.count, b ∉ c.pendingSubqueries → b ∉ c.waitingSubqueries →
    (c.subquery b).queryRecvComplete = true
  tail : 0 < c.count → ∃ b < c.count, c.tailQuery = some b
  tail_lt : ∀ b, c.tailQuery = some b → b < c.count
  accounted : strict →
    (c.released ++ (c.pendingSubqueries ++ c.waitingSubqueries)).Perm (List.range c.count)

variable {strict : Prop} {outcome : ℕ → SubqueryOutcome} {c : RedisMsetCommand ε} {b : ℕ}

/-- A subquery may change as long as it fits its place and does not lose its last byte. -/
theorem Gathering.setSubquery (h : Gathering strict outcome c) {s : MsetSubquery ε}
    (hw : b ∈ c.waitingSubqueries → 1024 ≤ s.backend.buffer.bufferSize ∧ Fresh s)
    (hp : b ∈ c.pendingSubqueries → Slot (outcome b).reply s)
    (hr : (c.subquery b).queryRecvComplete = true → s.queryRecvComplete = true) :
    Gathering strict outcome (c.setSubquery b s) := by
  refine ⟨h.reply, fun i hi => ?_, fun i hi => ?_, h.nodup, fun i hi hnp hnw => ?_, h.tail,
    h.tail_lt, h.accounted⟩
  · obtain ⟨hlt, hf⟩ := h.waiting i hi
    refine ⟨hlt, ?_⟩
    rw [backend, subquery_setSubquery]
    split
    next he => exact hw (he ▸ hi)
    next => exact hf
  · obtain ⟨hlt, hs⟩ := h.pending i hi
    refine ⟨hlt, ?_⟩
    rw [subquery_setSubquery]
    split
    next he =>
      subst he
      exact hp hi
    next => exact hs
  · rw [subquery_setSubquery]
    split
    next he =>
      subst he
      exact hr (h.received i hi hnp hnw)
    next => exact h.received i hi hnp hnw

theorem Gathering.notMem_waiting (h : Gathering strict outcome c) (hb : b ∈ c.pendingSubqueries) :
    b ∉ c.waitingSubqueries :=
  fun hw => (List.nodup_append.mp h.nodup).2.2 b hb b hw rfl

theorem Gathering.setComplete (h : Gathering strict outcome c) (b : ℕ) :
    Gathering strict outcome (c.setComplete b) := by
  refine h.setSubquery (fun hb => ?_) (fun hb => ?_) (fun _ => rfl)
  · obtain ⟨_, hroom, hf⟩ := h.waiting b hb
    exact ⟨hroom, hf.phase, hf.relay, hf.received, hf.reading, hf.incomplete, hf.noError⟩
  · obtain ⟨_, hs⟩ := h.pending b hb
    refine ⟨hs.room, ?_⟩
    cases hs.stage with
    | fresh hf =>
      exact .fresh ⟨hf.phase, hf.relay, hf.received, hf.reading, hf.incomplete, hf.noError⟩
    | listening hl =>
      exact .listening ⟨hl.phase, hl.query, rfl, hl.relay, hl.incomplete, hl.noError⟩
    | done hd => exact .done ⟨hd.query, hd.reading, hd.complete, hd.relay, hd.cause⟩

theorem Gathering.checkTail (h : Gathering strict outcome c) (buffer : ReadBuffer) (b : ℕ) :
    Gathering strict outcome (c.checkTail buffer b) := by
  unfold RedisMsetCommand.checkTail
  split
  next => exact h.setComplete b
  next => exact h

theorem Gathering.release (h : Gathering strict outcome c)
    (hc : (c.subquery b).queryRecvComplete = true) (hb : strict → b ∈ c.pendingSubqueries) :
    Gathering strict outcome (c.release b) := by
  refine ⟨h.reply, h.waiting, fun i hi => h.pending i (List.mem_of_mem_filter hi), ?_,
    fun i hi hnp hnw => ?_, h.tail, h.tail_lt, fun hs => ?_⟩
  · exact h.nodup.sublist (List.filter_sublist.append_right _)
  · by_cases he : i = b
    · exact he ▸ hc
    · refine h.received i hi (fun hp => hnp ?_) hnw
      exact List.mem_filter.mpr ⟨hp, by simpa using he⟩
  · have hnd : c.pendingSubqueries.Nodup := (List.nodup_append.mp h.nodup).1
    have herase : c.pendingSubqueries.filter (· ≠ b) = c.pendingSubqueries.erase b := by
      rw [hnd.erase_eq_filter]
      exact List.filter_congr fun i _ => by by_cases hi : i = b <;> simp [hi]
    have hperm : (b :: c.pendingSubqueries.filter (· ≠ b)).Perm c.pendingSubqueries :=
      herase ▸ (List.perm_cons_erase (hb hs)).symm
    refine List.Perm.trans ?_ (h.accounted hs)
    simp only [RedisMsetCommand.release, List.append_assoc, List.singleton_append]
    exact (hperm.append_right _).append_left _

section Push
variable [DecidableEq ε] {locate : Bytes → ε} {pool : Pool} {buffer buffer' : ReadBuffer}
  {data : Ptr} {bytes : ℕ} {ep : ε}

theorem Gathering.pushSubquery (h : Gathering strict outcome c)
    (hpool : ∀ k, AcceptedBufferSize (pool k).1.length) :
    Gathering strict outcome (pushSubquery pool ep data bytes (buffer, c)).2 := by
  unfold RedisMsetCommand.pushSubquery
  simp only
  split
  next =>
    -- a new subquery, numbered by the count
    have hnp : c.count ∉ c.pendingSubqueries := fun hm => absurd (h.pending _ hm).1 (lt_irrefl _)
    have hnw : c.count ∉ c.waitingSubqueries := fun hm => absurd (h.waiting _ hm).1 (lt_irrefl _)
    have hold : ∀ i, i < c.count → i ≠ c.count := fun i hi => hi.ne
    refine ⟨h.reply, fun i hi => ?_, fun i hi => ?_, ?_, fun i hi hip hiw => ?_,
      fun _ => ⟨c.count, Nat.lt_succ_self _, rfl⟩, ?_, fun hs => ?_⟩
    · rcases List.mem_append.mp hi with hi | hi
      · obtain ⟨hlt, hf⟩ := h.waiting i hi
        refine ⟨Nat.lt_succ_of_lt hlt, ?_⟩
        simp only [backend, subquery_setSubquery, if_neg (hold i hlt)]
        exact hf
      · obtain rfl := List.mem_singleton.mp hi
        refine ⟨Nat.lt_succ_self _, ?_⟩
        simp only [backend, subquery_setSubquery, if_true]
        exact Slot.allocated (hpool c.count)
    · obtain ⟨hlt, hs⟩ := h.pending i hi
      refine ⟨Nat.lt_succ_of_lt hlt, ?_⟩
      simp only [subquery_setSubquery, if_neg (hold i hlt)]
      exact hs
    · simp only [RedisMsetCommand.setSubquery]
      rw [← List.append_assoc]
      refine List.nodup_append.mpr ⟨h.nodup, by simp, ?_⟩
      rintro i hi j hj rfl
      obtain rfl := List.mem_singleton.mp hj
      rcases List.mem_append.mp hi with hi | hi
      · exact hnp hi
      · exact hnw hi
    · simp only [List.mem_append, List.mem_singleton, not_or] at hiw
      have hlt : i < c.count := by
        have hi : i < c.count + 1 := hi
        have := hiw.2
        omega
      simp only [subquery_setSubquery, if_neg hiw.2]
      exact h.received i hlt hip hiw.1
    · rintro i ⟨⟩
      exact Nat.lt_succ_self _
    · simp only [RedisMsetCommand.setSubquery, List.range_succ]
      rw [← List.append_assoc, ← List.append_assoc, List.append_assoc c.released]
      exact (h.accounted hs).append_right _
  next b hfind =>
    -- one more pair for a subquery that waits
    have hb : b ∈ c.waitingSubqueries := List.mem_of_find?_eq_some hfind
    have hset := h.setSubquery (b := b) (s := { c.subquery b with
        keysCount := (c.subquery b).keysCount + 1
        segments := growSegments (c.subquery b).segments data bytes })
      (fun hb => ⟨(h.waiting b hb).2.1, (h.waiting b hb).2.2.phase, (h.waiting b hb).2.2.relay,
        (h.waiting b hb).2.2.received, (h.waiting b hb).2.2.reading,
        (h.waiting b hb).2.2.incomplete, (h.waiting b hb).2.2.noError⟩)
      (fun hp => absurd hb (h.notMem_waiting hp)) id
    refine ⟨hset.reply, hset.waiting, hset.pending, hset.nodup, hset.received,
      fun _ => ⟨b, (h.waiting b hb).1, rfl⟩, ?_, hset.accounted⟩
    rintro i ⟨⟩
    exact (h.waiting b hb).1

theorem pushSubquery_frame (pool : Pool) (ep : ε) (data : Ptr) (bytes : ℕ)
    (s : ReadBuffer × RedisMsetCommand ε) :
    (pushSubquery pool ep data bytes s).2.replyingBackend = s.2.replyingBackend ∧
    (pushSubquery pool ep data bytes s).2.pendingSubqueries = s.2.pendingSubqueries ∧
    (pushSubquery pool ep data bytes s).2.released = s.2.released := by
  unfold RedisMsetCommand.pushSubquery
  simp only
  split
  next => exact ⟨rfl, rfl, rfl⟩
  next => exact ⟨rfl, rfl, rfl⟩

theorem Gathering.pushPairs (hpool : ∀ k, AcceptedBufferSize (pool k).1.length)
    (pairs : List (Bulk × Bulk)) : ∀ (s : ReadBuffer × RedisMsetCommand ε)
      {s' : ReadBuffer × RedisMsetCommand ε}, Gathering strict outcome s.2 →
      pairs.foldlM (pushPair locate pool) s = some s' →
      Gathering strict outcome s'.2 ∧ s'.2.replyingBackend = s.2.replyingBackend ∧
        s'.2.pendingSubqueries = s.2.pendingSubqueries ∧ s'.2.released = s.2.released := by
  induction pairs with
  | nil =>
    rintro s _ h ⟨⟩
    exact ⟨h, rfl, rfl, rfl⟩
  | cons pair pairs ih =>
    intro s s' h hf
    simp only [List.foldlM_cons, pushPair, Option.bind_eq_bind, Option.bind_eq_some_iff,
      Option.some.injEq] at hf
    obtain ⟨_, ⟨key, _, rfl⟩, hf⟩ := hf
    obtain ⟨hr, hp, hrel⟩ := pushSubquery_frame pool (locate key) pair.1.rawData
      (presentSum pair.1.presentSize pair.2.presentSize) s
    obtain ⟨hg, hr', hp', hrel'⟩ := ih _ (h.pushSubquery hpool) hf
    exact ⟨hg, hr'.trans hr, hp'.trans hp, hrel'.trans hrel⟩

end Push

section Activate
variable (buffer : ReadBuffer)

theorem Gathering.activate {bs : List ℕ}
    (h : Gathering strict outcome { c with waitingSubqueries := b :: bs }) :
    Gathering strict outcome { activate buffer c b with waitingSubqueries := bs } := by
  obtain ⟨hlt, hroom, hf⟩ := h.waiting b List.mem_cons_self
  have hmoved : Gathering strict outcome { c with
      pendingSubqueries := c.pendingSubqueries ++ [b], waitingSubqueries := bs } := by
    have hsplit : c.pendingSubqueries ++ [b] ++ bs = c.pendingSubqueries ++ b :: bs := by simp
    refine ⟨h.reply, fun i hi => h.waiting i (List.mem_cons_of_mem b hi), fun i hi => ?_, ?_,
      fun i hi hnp hnw => ?_, h.tail, h.tail_lt, fun hs => ?_⟩
    · rcases List.mem_append.mp hi with hi | hi
      · exact h.pending i hi
      · obtain rfl := List.mem_singleton.mp hi
        exact ⟨hlt, hroom, .fresh hf⟩
    · exact hsplit ▸ h.nodup
    · simp only [List.mem_append, List.mem_singleton, not_or] at hnp
      exact h.received i hi hnp.1 (by simpa [hnp.2] using hnw)
    · exact hsplit ▸ h.accounted hs
  unfold RedisMsetCommand.activate
  simp only
  generalize hc : (if c.tailQuery ≠ some b ∨ buffer.parsedUnreceivedBytes = 0
    then RedisMsetCommand.setComplete { c with pendingSubqueries := c.pendingSubqueries ++ [b] } b
    else { c with pendingSubqueries := c.pendingSubqueries ++ [b] }) = d
  have hd : Gathering strict outcome { d with waitingSubqueries := bs } ∧
      b ∈ d.pendingSubqueries ∧ b ∉ bs ∧ 1024 ≤ (d.backend b).buffer.bufferSize ∧
      Fresh (d.subquery b) := by
    have hb : b ∉ bs := fun hb => (List.nodup_append.mp hmoved.nodup).2.2 b (by simp) b hb rfl
    subst hc
    split
    next =>
      refine ⟨hmoved.setComplete b, by simp [RedisMsetCommand.setComplete,
        RedisMsetCommand.setSubquery], hb, ?_⟩
      simp only [RedisMsetCommand.setComplete, backend, subquery_setSubquery, if_true]
      exact ⟨hroom, hf.phase, hf.relay, hf.received, hf.reading, hf.incomplete, hf.noError⟩
    next => exact ⟨hmoved, by simp, hb, hroom, hf⟩
  obtain ⟨hg, hmem, hnw, hr, hfd⟩ := hd
  refine hg.setSubquery (b := b) (fun hw => absurd hw hnw) (fun _ => ⟨?_, .fresh ?_⟩) id
  · rw [room_writeQuery]
    exact hr
  · exact hfd.writeQuery hfd.phase none _

theorem activate_frame (c : RedisMsetCommand ε) (b : ℕ) :
    (activate buffer c b).replyingBackend = c.replyingBackend ∧
    (activate buffer c b).unparsedBulks = c.unparsedBulks := by
  unfold RedisMsetCommand.activate
  simp only
  split
  next => exact ⟨rfl, rfl⟩
  next => exact ⟨rfl, rfl⟩

theorem Gathering.activateAll (bs : List ℕ) : ∀ c : RedisMsetCommand ε,
    Gathering strict outcome { c with waitingSubqueries := bs } →
    Gathering strict outcome { bs.foldl (RedisMsetCommand.activate buffer) c with
      waitingSubqueries := [] } ∧
    (bs.foldl (RedisMsetCommand.activate buffer) c).replyingBackend = c.replyingBackend ∧
    (bs.foldl (RedisMsetCommand.activate buffer) c).unparsedBulks = c.unparsedBulks := by
  induction bs with
  | nil => exact fun c h => ⟨h, rfl, rfl⟩
  | cons b bs ih =>
    intro c h
    obtain ⟨hr, hu⟩ := activate_frame buffer c b
    obtain ⟨hg, hr', hu'⟩ := ih _ (h.activate buffer)
    exact ⟨hg, hr'.trans hr, hu'.trans hu⟩

theorem Gathering.activateWaitingSubquery (h : Gathering strict outcome c) :
    Gathering strict outcome (activateWaitingSubquery buffer c) :=
  (Gathering.activateAll buffer c.waitingSubqueries c h).1

end Activate

/-- No client write has been started. A backend that waits to reply is the last one left. -/
structure Collecting (strict : Prop) (outcome : ℕ → SubqueryOutcome) (first : Bool)
    (c : RedisMsetCommand ε) : Prop where
  gathering : Gathering strict outcome c
  rest : c.waitingSubqueries = []
  replying : ∀ b, c.replyingBackend = some b → first = false ∧ c.unparsedBulks = 0 ∧
    c.pendingSubqueries = [b] ∧ (c.subquery b).queryRecvComplete = true ∧
    Done (outcome b).reply (c.subquery b)

/-- The client write of the last subquery `b` is in flight. -/
structure Replied (strict : Prop) (outcome : ℕ → SubqueryOutcome) (b : ℕ) (c : RedisMsetCommand ε) :
    Prop where
  last : c.pendingSubqueries = [b]
  rest : c.waitingSubqueries = []
  received : c.queryRecvComplete = true
  writing : c.reply = ⟨true, true⟩
  query : (c.backend b).query = none
  reading : (c.backend b).isReadingReply = false
  complete : (c.backend b).replyRecvComplete = true
  relay : Relay (outcome b).reply (outcome b).reply.length (outcome b).reply (c.backend b).buffer
  accounted : strict → (c.released ++ c.pendingSubqueries).Perm (List.range c.count)

inductive Stands (strict : Prop) (outcome : ℕ → SubqueryOutcome) (out : Bytes)
    (writing : Option (Option ℕ)) (first : Bool) (c : RedisMsetCommand ε) : Prop where
  | collecting : out = [] → writing = none → Collecting strict outcome first c →
    Stands strict outcome out writing first c
  | replied {b : ℕ} : out = (outcome b).reply → writing = some (some b) → first = true →
    Replied strict outcome b c → Stands strict outcome out writing first c

/-- The command as it is rotated out. -/
structure Finished (strict : Prop) (outcome : ℕ → SubqueryOutcome) (out : Bytes)
    (c : RedisMsetCommand ε) : Prop where
  last : ∃ b, c.pendingSubqueries = [b] ∧ out = (outcome b).reply
  accounted : strict → (c.released ++ c.pendingSubqueries).Perm (List.range c.count)

variable {first : Bool} {out : Bytes} {writing : Option (Option ℕ)}

theorem Gathering.queryRecvComplete (h : Gathering strict outcome c) (hw : c.waitingSubqueries = [])
    (hu : c.unparsedBulks = 0) (hp : c.pendingSubqueries = [b])
    (hc : (c.subquery b).queryRecvComplete = true) : c.queryRecvComplete = true := by
  have hb : b < c.count := (h.pending b (by simp [hp])).1
  obtain ⟨t, ht, htail⟩ := h.tail (by omega)
  have hcomplete : (c.subquery t).queryRecvComplete = true := by
    by_cases he : t = b
    · exact he ▸ hc
    · exact h.received t ht (by simpa [hp] using he) (by simp [hw])
  simp [RedisMsetCommand.queryRecvComplete, tailComplete, htail, hcomplete, queryParsingComplete,
    hu]

theorem Collecting.replyingBackend (h : Collecting strict outcome first c)
    (hb : b ∈ c.pendingSubqueries) (hd : ¬ Done (outcome b).reply (c.subquery b)) :
    c.replyingBackend = none := by
  cases hr : c.replyingBackend with
  | none => rfl
  | some i =>
    obtain ⟨_, _, hp, _, hdone⟩ := h.replying i hr
    obtain rfl : b = i := by simpa [hp] using hb
    exact absurd hdone hd

theorem Collecting.setSubquery (h : Collecting strict outcome first c) {s : MsetSubquery ε}
    (hn : c.replyingBackend = none) (hp : b ∈ c.pendingSubqueries → Slot (outcome b).reply s)
    (hr : (c.subquery b).queryRecvComplete = true → s.queryRecvComplete = true) :
    Collecting strict outcome first (c.setSubquery b s) :=
  ⟨h.gathering.setSubquery (by simp [h.rest]) hp hr, h.rest,
    fun _ hi => absurd (hn.symm.trans hi) (by simp)⟩

theorem Collecting.release (h : Collecting strict outcome first c) (hn : c.replyingBackend = none)
    (hc : (c.subquery b).queryRecvComplete = true) (hb : strict → b ∈ c.pendingSubqueries) :
    Collecting strict outcome first (c.release b) :=
  ⟨h.gathering.release hc hb, h.rest, fun _ hi => absurd (hn.symm.trans hi) (by simp)⟩

theorem Collecting.checkTail (h : Collecting strict outcome first c) (hn : c.replyingBackend = none)
    (buffer : ReadBuffer) (b : ℕ) : Collecting strict outcome first (c.checkTail buffer b) := by
  have hg := h.gathering.checkTail buffer b
  unfold RedisMsetCommand.checkTail at hg ⊢
  split
  next hz =>
    rw [if_pos hz] at hg
    exact ⟨hg, h.rest, fun _ hi => absurd (hn.symm.trans hi) (by simp)⟩
  next => exact h

theorem queryRecvComplete_setBackend (c : RedisMsetCommand ε) (b : ℕ) (k : BackendConn ε) :
    (c.setBackend b k).queryRecvComplete = c.queryRecvComplete := by
  have hflag : ∀ i, ((c.setBackend b k).subquery i).queryRecvComplete =
      (c.subquery i).queryRecvComplete := by
    intro i
    rw [setBackend, subquery_setSubquery]
    split
    next hi => rw [hi]
    next => rfl
  simp only [RedisMsetCommand.queryRecvComplete, tailComplete, hflag]
  rfl

/-- Nobody waits to reply before the request has been received as a whole. -/
theorem Collecting.replyingBackend_of_incomplete (h : Collecting strict outcome first c)
    (hq : c.queryRecvComplete = false) : c.replyingBackend = none := by
  cases hr : c.replyingBackend with
  | none => rfl
  | some b =>
    obtain ⟨_, hu, hp, hcomplete, _⟩ := h.replying b hr
    simp [h.gathering.queryRecvComplete h.rest hu hp hcomplete] at hq

theorem Stands.collecting_of_incomplete (h : Stands strict outcome out writing first c)
    (hq : c.queryRecvComplete = false) :
    out = [] ∧ writing = none ∧ Collecting strict outcome first c := by
  cases h with
  | collecting hout hw hc => exact ⟨hout, hw, hc⟩
  | replied _ _ _ hr => simp [hr.received] at hq

theorem Collecting.tail_pending (h : Collecting strict outcome first c) (ht : c.tailQuery = some b)
    (hc : c.tailComplete = false) : b ∈ c.pendingSubqueries := by
  by_contra hn
  have hr := h.gathering.received b (h.gathering.tail_lt b ht) hn (by simp [h.rest])
  simp [tailComplete, ht, hr] at hc

theorem checkTail_frame (c : RedisMsetCommand ε) (buffer : ReadBuffer) (b : ℕ) :
    (c.checkTail buffer b).pendingSubqueries = c.pendingSubqueries ∧
    (c.checkTail buffer b).unparsedBulks = c.unparsedBulks ∧
    (c.checkTail buffer b).replyingBackend = c.replyingBackend ∧
    ((c.checkTail buffer b).subquery b).backend = (c.subquery b).backend := by
  unfold RedisMsetCommand.checkTail
  split
  next => exact ⟨rfl, rfl, rfl, by simp [setComplete]⟩
  next => exact ⟨rfl, rfl, rfl, rfl⟩

theorem Gathering.setUnparsed (h : Gathering strict outcome c) (n : ℕ) :
    Gathering strict outcome { c with unparsedBulks := n } :=
  ⟨h.reply, h.waiting, h.pending, h.nodup, h.received, h.tail, h.tail_lt, h.accounted⟩

theorem Gathering.collecting (h : Gathering strict outcome c) (hn : c.replyingBackend = none)
    (buffer : ReadBuffer) :
    Collecting strict outcome first (RedisMsetCommand.activateWaitingSubquery buffer c) := by
  refine ⟨h.activateWaitingSubquery buffer, rfl, fun i hi => ?_⟩
  have hframe := (Gathering.activateAll buffer c.waitingSubqueries c h).2.1
  simp only [RedisMsetCommand.activateWaitingSubquery] at hi
  exact absurd ((hframe.trans hn).symm.trans hi) (by simp)

theorem Stands.bytes (h : Stands strict outcome out writing first c) :
    out = [] ∨ ∃ b, out = (outcome b).reply := by
  cases h with
  | collecting ho _ _ => exact Or.inl ho
  | @replied b ho _ _ _ => exact Or.inr ⟨b, ho⟩

theorem visible_readMore (x : Ctx (RedisMsetCommand ε)) : (readMore x).visible = x.visible := by
  unfold readMore
  split
  next => simp [Ctx.visible_emit, Effect.visible]
  next => rfl

theorem cmd_readMore (x : Ctx (RedisMsetCommand ε)) : (readMore x).cmd = x.cmd := by
  unfold readMore
  split
  next => rfl
  next => rfl

section Handlers
variable [DecidableEq ε] {locate : Bytes → ε} {pool : Pool} {x : Ctx (RedisMsetCommand ε)}

/-- A handler of the command, started with `out` handed to the client socket. -/
abbrev Acted (locate : Bytes → ε) (pool : Pool) (strict : Prop) (outcome : ℕ → SubqueryOutcome)
    (out : Bytes) (writing : Option (Option ℕ)) (first : Bool) (x : Ctx (RedisMsetCommand ε)) :
    Prop :=
  Outcome (handlers locate pool) (fun o w => Stands strict outcome o w first)
    (Finished strict outcome) out writing first x

theorem tryWriteReply_acted (h : Gathering strict outcome x.cmd) (hw : x.cmd.waitingSubqueries = [])
    (hu : x.cmd.unparsedBulks = 0) (hp : x.cmd.pendingSubqueries = [b])
    (hc : (x.cmd.subquery b).queryRecvComplete = true)
    (hd : Done (outcome b).reply (x.cmd.subquery b)) (hf : x.first = true) (he : x.effects = []) :
    Acted locate pool strict outcome [] none x.first (tryWriteReply b x) := by
  obtain ⟨buffer, hwrite, hrelay⟩ := hd.tryWriteReply (outcome b).length_reply_pos b
  have hrecv := h.queryRecvComplete hw hu hp hc
  unfold RedisMsetCommand.tryWriteReply
  rw [h.reply, backend, hwrite]
  have hq := (queryRecvComplete_setBackend x.cmd b
    { (x.cmd.subquery b).backend with buffer := buffer }).trans hrecv
  refine .wrote (by rw [Ctx.visible, he]; rfl) rfl hf hq
    (.replied rfl rfl hf ⟨hp, hw, hq, rfl, ?_, ?_, ?_, ?_, ?_⟩)
  · simpa [backend, setBackend] using hd.query
  · simpa [backend, setBackend] using hd.reading
  · simpa [backend, setBackend] using hd.complete
  · simpa [backend, setBackend] using hrelay
  · intro hs
    have hperm := h.accounted hs
    rw [hw, List.append_nil] at hperm
    exact hperm

theorem replyOrWait_acted (h : Collecting strict outcome x.first x.cmd)
    (hu : x.cmd.unparsedBulks = 0) (hp : x.cmd.pendingSubqueries = [b])
    (hc : (x.cmd.subquery b).queryRecvComplete = true)
    (hd : Done (outcome b).reply (x.cmd.subquery b)) (he : x.effects = []) :
    Acted locate pool strict outcome [] none x.first (replyOrWait b x) := by
  unfold replyOrWait
  split
  next hf => exact tryWriteReply_acted h.gathering h.rest hu hp hc hd hf he
  next hf =>
    have hg := h.gathering
    refine .quiet (by simp [Ctx.visible, he])
      (.collecting
      rfl rfl ⟨⟨hg.reply, hg.waiting, hg.pending, hg.nodup, hg.received, hg.tail, hg.tail_lt,
      hg.accounted⟩, h.rest, ?_⟩)
    rintro i ⟨⟩
    exact ⟨by simpa using hf, hu, hp, hc, hd⟩

/-- The last subquery replies; any other that is received as a whole is handed back. -/
theorem settle_acted (h : Collecting strict outcome x.first x.cmd)
    (hn : x.cmd.replyingBackend = none)
    (hb : b ∈ x.cmd.pendingSubqueries) (hc : (x.cmd.subquery b).queryRecvComplete = true)
    (hd : Done (outcome b).reply (x.cmd.subquery b)) (he : x.effects = []) :
    Acted locate pool strict outcome [] none x.first
      (if x.cmd.unparsedBulks = 0 ∧ x.cmd.pendingSubqueries.length = 1 then replyOrWait b x
        else { x with cmd := x.cmd.release b }) := by
  split
  next hl =>
    obtain ⟨i, hi⟩ := List.length_eq_one_iff.mp hl.2
    obtain rfl : b = i := by simpa [hi] using hb
    exact replyOrWait_acted h hl.1 hi hc hd he
  next =>
    exact .quiet (by simp [Ctx.visible, he]) (.collecting rfl rfl (h.release hn hc fun _ => hb))

theorem readMore_acted (h : Acted locate pool strict outcome out writing first x) :
    Acted locate pool strict outcome out writing first (readMore x) :=
  h.map (visible_readMore x) (fun hq => by rwa [cmd_readMore])
    (fun o w hs => by rwa [cmd_readMore]) (fun o hr => by rwa [cmd_readMore])

theorem connectFailed_acted (h : Collecting strict outcome x.first x.cmd)
    (hb : b ∈ x.cmd.pendingSubqueries) (hf : Fresh (x.cmd.subquery b))
    (hroom : 1024 ≤ (x.cmd.backend b).buffer.bufferSize) (hq : (x.cmd.backend b).query = none)
    (ho : outcome b = .connectFailure) (he : x.effects = []) :
    Acted locate pool strict outcome [] none x.first (onWriteQueryFinished b .connect x) := by
  have hn := h.replyingBackend hb hf.not_done
  have hd : Done (outcome b).reply { x.cmd.subquery b with
      backend := (x.cmd.backend b).substitute (redisErrorReply .connect) } := by
    rw [ho]
    exact hf.substitute hroom hq
  have hk : 1024 ≤ ((x.cmd.backend b).substitute (redisErrorReply .connect)).buffer.bufferSize :=
    hroom
  unfold onWriteQueryFinished onBackendRecoverableError
  simp only [ne_eq, reduceCtorEq, not_false_eq_true, if_true, h.gathering.reply, ReplyState.idle,
    Bool.false_eq_true, if_false]
  generalize (x.cmd.backend b).substitute (redisErrorReply .connect) = k at hd hk ⊢
  have hset : Collecting strict outcome x.first (x.cmd.setBackend b k) :=
    h.setSubquery hn (fun _ => ⟨hk, .done hd⟩) id
  refine readMore_acted ?_
  split
  next hc =>
    refine Outcome.map (settle_acted (b := b) (x := { x with cmd := x.cmd.setBackend b k })
      hset hn hb hc ?_ he) rfl id (fun _ _ hs => hs) (fun _ hr => hr)
    simpa [setBackend] using hd
  next => exact .quiet (by simp [Ctx.visible, he]) (.collecting rfl rfl hset)

theorem querySent_acted (h : Collecting strict outcome x.first x.cmd)
    (hb : b ∈ x.cmd.pendingSubqueries) (hf : Fresh (x.cmd.subquery b))
    (hroom : 1024 ≤ (x.cmd.backend b).buffer.bufferSize) (hq : (x.cmd.backend b).query = none)
    (he : x.effects = []) : Acted locate pool strict outcome [] none x.first (querySent b x) := by
  have hn := h.replyingBackend hb hf.not_done
  unfold querySent
  refine readMore_acted (.quiet (by simp [Ctx.visible, he]) (.collecting rfl rfl ?_))
  simp only
  split
  next hc => exact h.setSubquery hn (fun _ => ⟨hroom, .listening (hf.readReply hq hc)⟩) id
  next => exact h

theorem queryWritten_acted (h : Collecting strict outcome x.first x.cmd)
    (hb : b ∈ x.cmd.pendingSubqueries) (hf : Fresh (x.cmd.subquery b))
    (hroom : 1024 ≤ (x.cmd.backend b).buffer.bufferSize) (hq : (x.cmd.backend b).query = none)
    (he : x.effects = []) :
    Acted locate pool strict outcome [] none x.first (onWriteQueryFinished b .success x) := by
  have hn := h.replyingBackend hb hf.not_done
  -- the next segment of the query is written
  have hnext : ∀ (phase : MsetPhase) (segments : List Segment) (s : Segment),
      phase ≠ .readingReply → Acted locate pool strict outcome [] none x.first
        { x with cmd := x.cmd.setSubquery b { x.cmd.subquery b with
            phase := phase
            segments := segments
            backend := (x.cmd.backend b).writeQuery s.at_ s.bytes } } := by
    intro phase segments s hp
    refine .quiet (by simp [Ctx.visible, he]) (.collecting rfl rfl
      (h.setSubquery hn (fun _ => ⟨?_, .fresh (hf.writeQuery hp _ _)⟩) id))
    rw [room_writeQuery]
    exact hroom
  unfold onWriteQueryFinished
  simp only [ne_eq, not_true_eq_false, if_false]
  split
  next =>
    split
    next => exact .stopped (Ctx.visible_emit_of_nil he rfl) (Or.inr (Or.inr rfl))
    next s _ _ => exact hnext .sendingMoreQuery _ s (by simp)
  next =>
    split
    next =>
      have hp : (if (x.cmd.subquery b).queryRecvComplete then (x.cmd.subquery b).phase
          else .readingMoreQuery) ≠ .readingReply := by
        split
        next => exact hf.phase
        next => simp
      have hf' : Fresh { x.cmd.subquery b with
          segments := []
          phase := if (x.cmd.subquery b).queryRecvComplete then (x.cmd.subquery b).phase
            else .readingMoreQuery } :=
        ⟨hp, hf.relay, hf.received, hf.reading, hf.incomplete, hf.noError⟩
      refine querySent_acted (x := { x with cmd := x.cmd.setSubquery b _ })
        (h.setSubquery hn (fun _ => ⟨hroom, .fresh hf'⟩) id) hb ?_ ?_ ?_ he
      · simpa using hf'
      · simpa [backend] using hroom
      · simpa [backend] using hq
    next s segments _ => exact hnext _ _ s hf.phase
  next => exact querySent_acted h hb hf hroom hq he
  next => exact .stopped (Ctx.visible_emit_of_nil he rfl) (Or.inr (Or.inl rfl))

theorem replyReceived_acted (h : Collecting strict outcome x.first x.cmd)
    (hn : x.cmd.replyingBackend = none)
    (hb : b ∈ x.cmd.pendingSubqueries) (hc : (x.cmd.subquery b).queryRecvComplete = true)
    (hd : Done (outcome b).reply (x.cmd.subquery b)) (he : x.effects = []) :
    Acted locate pool strict outcome [] none x.first (replyReceived b x) := by
  have hu : (x.cmd.backend b).buffer.unparsedBytes = 0 := by
    rw [backend, hd.relay.unparsedBytes]
    omega
  unfold replyReceived
  rw [if_neg (by simp [h.rest])]
  split
  next hl =>
    obtain ⟨i, hi⟩ := List.length_eq_one_iff.mp hl.2
    obtain rfl : b = i := by simpa [hi] using hb
    exact replyOrWait_acted h hl.1 hi hc hd he
  next =>
    simp only
    rw [if_neg (by simp [hu])]
    have hrel : ∀ k, Collecting strict outcome x.first ((x.cmd.setBackend b k).release b) := by
      intro k
      have hg := h.gathering.release hc fun _ => hb
      refine ⟨?_, h.rest, fun _ hi => absurd (hn.symm.trans hi) (by simp)⟩
      exact Gathering.setSubquery hg (by simp [RedisMsetCommand.release, h.rest])
        (by simp [RedisMsetCommand.release]) id
    split
    next =>
      exact Outcome.emit (.quiet (by simp [Ctx.visible, he]) (.collecting rfl rfl (hrel _))) rfl
    next => exact .quiet (by simp [Ctx.visible, he]) (.collecting rfl rfl (hrel _))

theorem replyRead_acted {chunk : Bytes} (h : Collecting strict outcome x.first x.cmd)
    (hb : b ∈ x.cmd.pendingSubqueries) (hl : Listening (x.cmd.subquery b))
    (hroom : 1024 ≤ (x.cmd.backend b).buffer.bufferSize)
    (hc : chunk.length ≤ (x.cmd.backend b).buffer.freeSpaceSize) (hne : chunk ≠ [])
    (ha : (x.cmd.backend b).received ++ chunk <+: (outcome b).reply) (he : x.effects = []) :
    Acted locate pool strict outcome [] none x.first (onBackendReplyReceived b .success
      { x with cmd := x.cmd.setBackend b ((x.cmd.backend b).handle (.replyRead chunk)).1 }) := by
  have hn := h.replyingBackend hb hl.not_done
  have hread := hl.replyRead hc
  generalize hk : ((x.cmd.backend b).handle (.replyRead chunk)).1 = k
  rw [show (x.cmd.subquery b).backend = x.cmd.backend b from rfl, hk] at hread
  have hkr : k.received = (x.cmd.backend b).received ++ chunk := by rw [← hk]; rfl
  have hki : k.isReadingReply = false := by rw [← hk]; rfl
  have hkc : k.replyRecvComplete = false := hread.incomplete
  have hkroom : 1024 ≤ k.buffer.bufferSize := by rw [← hk]; simpa using hroom
  have hback : (x.cmd.setBackend b k).backend b = k := by simp [backend, setBackend]
  -- a second update of the same backend
  have hset : ∀ k', (x.cmd.setBackend b k).setBackend b k' = x.cmd.setBackend b k' := by
    intro k'
    simp [setBackend, RedisMsetCommand.setSubquery]
  have hgood : ∀ k' : BackendConn ε, Slot (outcome b).reply { x.cmd.subquery b with backend := k' }
      →
      Collecting strict outcome x.first (x.cmd.setBackend b k') :=
    fun k' hs => h.setSubquery hn (fun _ => hs) id
  unfold onBackendReplyReceived
  simp only [ne_eq, not_true_eq_false, if_false, hback]
  rcases hread.parseReply (hkr ▸ ha) (by simp [hkr, hne]) hki
    with hp | ⟨k', hp, hd, hcomplete, hsize⟩
  · rw [hp]
    simp only [Bool.not_true, Bool.false_eq_true, if_false, hkc, Bool.not_false, if_true, hset]
    refine .quiet (by simp [Ctx.visible, he]) (.collecting rfl rfl
      (hgood _ ⟨?_, .listening hread.tryReadMoreReply⟩))
    rw [room_tryReadMoreReply]
    exact hkroom
  · rw [hp]
    simp only [Bool.not_true, Bool.false_eq_true, if_false, hcomplete, hset]
    refine replyReceived_acted (x := { x with cmd := x.cmd.setBackend b k' })
      (hgood k' ⟨hsize ▸ hkroom, .done hd⟩) hn hb ?_ ?_ he
    · simpa [setBackend] using hl.sent
    · simpa [setBackend] using hd

end Handlers

end RedisMsetCommand
end Yarmproxy

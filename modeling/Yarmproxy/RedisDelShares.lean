import Yarmproxy.RedisDelCommand
import Yarmproxy.RedisMgetBackend
import Yarmproxy.RedisSegments
import Yarmproxy.Lists

/-! # The shares of a Redis `DEL`

Every subquery has a share of the keys. It asks its backend for them and counts the ones that are
held there; a subquery whose connection is refused counts nothing. -/
namespace Yarmproxy
namespace RedisDelCommand
open RedisMgetCommand (Locked)

variable {ε : Type}

/-- The line that tells `n`. -/
def countReply (n : ℕ) : Bytes := ascii ":" ++ dec n ++ crlf

theorem replyCount_natCast {n : ℕ} (h : n < 2 ^ 31) : replyCount n = countReply n := by
  rw [replyCount, intToSize_natCast (by omega), countReply]

theorem length_countReply {n : ℕ} (h : n < 2 ^ 31) :
    0 < (countReply n).length ∧ (countReply n).length < 40 := by
  have hdec := length_dec_le (n := n) (k := 10) (by decide) (by omega)
  rw [countReply, List.length_append, List.length_append]
  simp only [ascii, crlf, List.length_cons, List.length_nil, List.length_map]
  constructor
  · omega
  · have : ":".toList.length = 1 := rfl
    omega

theorem delPrefix_append (name : Bytes) (keys : List Bytes) :
    delPrefix name keys.length ++ encodeItems (keys.map some) = encodeStrings (name :: keys) := by
  have hline : ascii "\r\n$" = crlf ++ [ch '$'] := rfl
  rw [delPrefix, hline]
  simp [encodeStrings, encodeArray, serializePrefix, encodeItems, encodeItem, crlf, ch]

/-- The segments behind the piece that is written now. -/
def behind (q : DelSubquery ε) : List Segment :=
  match q.phase with
  | .sendingPrefix => q.segments
  | _ => q.segments.tail

/-- Nothing has been read from the connection. -/
structure Silent (k : BackendConn ε) : Prop where
  connection : k.aborted = false
  relay : Relay [] 0 [] k.buffer
  received : k.received = []
  reading : k.isReadingReply = false
  incomplete : k.replyRecvComplete = false
  noError : k.noRecycle = false
  locked : Locked false k

/-- The query is being written: what is in flight and the segments behind it complete it. -/
structure Asking (name : Bytes) (keys : List Bytes) (q : DelSubquery ε) : Prop where
  phase : q.phase ≠ .readingReply
  silent : Silent q.backend
  query : ∃ at_ data, (q.backend.query = some (.connecting at_ data) ∨
      q.backend.query = some (.writing at_ data)) ∧
    q.backend.sent ++ data ++ (behind q).flatMap Segment.bytes = encodeStrings (name :: keys)

/-- A piece of the query has been written, and nothing is in flight. -/
structure Written (name : Bytes) (keys : List Bytes) (q : DelSubquery ε) : Prop where
  phase : q.phase ≠ .readingReply
  silent : Silent q.backend
  query : q.backend.query = none
  sent : q.backend.sent ++ (behind q).flatMap Segment.bytes = encodeStrings (name :: keys)

/-- The query has been sent; a part of the reply line has been read, and more is if `reading`. -/
structure Listening (name : Bytes) (keys : List Bytes) (reading : Bool) (q : DelSubquery ε) :
    Prop where
  query : q.backend.query = none
  sent : q.backend.sent = encodeStrings (name :: keys)
  reading : q.backend.isReadingReply = reading
  relay : Relay q.backend.received 0 [] q.backend.buffer
  incomplete : q.backend.replyRecvComplete = false
  noError : q.backend.noRecycle = false
  locked : Locked false q.backend

inductive Stage (name : Bytes) (keys : List Bytes) (q : DelSubquery ε) : Prop where
  | asking : Asking name keys q → Stage name keys q
  | listening : Listening name keys true q → Stage name keys q

/-- A subquery that is under way. -/
structure Slot (name : Bytes) (keys : List Bytes) (q : DelSubquery ε) : Prop where
  room : 1024 ≤ q.backend.buffer.bufferSize
  stage : Stage name keys q

/-- A subquery that has not been started, with its keys in `mem`. -/
structure Waiting (pool : Pool) (mem : Bytes) (b : ℕ) (keys : List Bytes) (q : DelSubquery ε) :
    Prop where
  backend : ∃ ep, q.backend = pool.allocate b ep
  phase : q.phase = .sendingPrefix
  count : q.keysCount = keys.length
  segments : q.segments.flatMap Segment.bytes = encodeItems (keys.map some)
  ends : ∃ stop, EndsAt mem stop q.segments

variable {name : Bytes} {keys : List Bytes} {q : DelSubquery ε} {k : BackendConn ε} {chunk : Bytes}
  {n : ℕ}

theorem Slot.asking (h : Slot name keys q) (hq : q.backend.query ≠ none) : Asking name keys q := by
  cases h.stage with
  | asking ha => exact ha
  | listening hl => exact absurd hl.query hq

theorem Slot.listening (h : Slot name keys q) (hr : q.backend.isReadingReply = true) :
    Listening name keys true q := by
  cases h.stage with
  | asking ha => cases ha.silent.reading.symm.trans hr
  | listening hl => exact hl

theorem Slot.sent (h : Slot name keys q) : q.backend.sent <+: encodeStrings (name :: keys) ∧
    (q.backend.isReadingReply = true → q.backend.sent = encodeStrings (name :: keys)) := by
  cases h.stage with
  | asking ha =>
    obtain ⟨at_, data, -, hsent⟩ := ha.query
    refine ⟨⟨data ++ (behind q).flatMap Segment.bytes, ?_⟩, fun hr => ?_⟩
    · rw [← List.append_assoc]
      exact hsent
    · cases ha.silent.reading.symm.trans hr
  | listening hl => exact ⟨⟨[], (List.append_nil _).trans hl.sent⟩, fun _ => hl.sent⟩

theorem Slot.noError (h : Slot name keys q) : q.backend.noRecycle = false := by
  cases h.stage with
  | asking ha => exact ha.silent.noError
  | listening hl => exact hl.noError

theorem Slot.busy (h : Slot name keys q) :
    q.backend.query ≠ none ∨ q.backend.isReadingReply = true := by
  cases h.stage with
  | asking ha =>
    obtain ⟨at_, data, hq | hq, -⟩ := ha.query
    · exact .inl (by simp [hq])
    · exact .inl (by simp [hq])
  | listening hl => exact .inr hl.reading

theorem Silent.allocated {data : Bytes} {opened : Bool} {ep : ε}
    (hd : AcceptedBufferSize data.length) :
    1024 ≤ (BackendConn.allocated ep data opened).buffer.bufferSize ∧
      Silent (BackendConn.allocated ep data opened) := by
  obtain ⟨hlo, hhi⟩ := hd.bounds
  refine ⟨hlo, rfl, ⟨ReadBuffer.new_valid hhi, ?_, rfl⟩, rfl, rfl, rfl, rfl, rfl, fun _ _ => ?_⟩
  · simp [BackendConn.allocated, ReadBuffer.new, ReadBuffer.queued]
  · exact Nat.zero_le _

theorem Silent.writing (h : Silent k) {timer opened : Bool} {op : Option QueryOp} {sent : Bytes} :
    Silent
      { k with writeTimerCanceled := timer, socketOpen := opened, query := op, sent := sent } :=
  ⟨h.connection, h.relay, h.received, h.reading, h.incomplete, h.noError, h.locked.locks,
    h.locked.compact⟩

theorem Waiting.activate {pool : Pool} {mem : Bytes} {b : ℕ} (h : Waiting pool mem b keys q)
    (hpool : AcceptedBufferSize (pool b).1.length) :
    Slot name keys
      { q with backend := q.backend.writeQuery none (delPrefix name q.keysCount) } := by
  obtain ⟨ep, hep⟩ := h.backend
  have hsilent : 1024 ≤ (pool.allocate b ep).buffer.bufferSize ∧ Silent (pool.allocate b ep) :=
    Silent.allocated hpool
  rw [← hep] at hsilent
  obtain ⟨opened, op, hk, hop⟩ :=
    BackendConn.writeQuery_sends hsilent.2.connection none (delPrefix name q.keysCount)
  refine ⟨?_, .asking ⟨?_, ?_, none, delPrefix name q.keysCount, ?_, ?_⟩⟩
  · rw [hk]
    exact hsilent.1
  · rw [h.phase]
    rintro ⟨⟩
  · rw [hk]
    exact hsilent.2.writing
  · rw [hk]
    exact hop.imp (congrArg some) (congrArg some)
  · have hsent : (q.backend.writeQuery none (delPrefix name q.keysCount)).sent = [] := by
      rw [hk, hep]
      rfl
    have hbehind : behind { q with
        backend := q.backend.writeQuery none (delPrefix name q.keysCount) } = q.segments := by
      simp only [behind, h.phase]
    rw [hsent, hbehind, h.segments, h.count, List.nil_append, delPrefix_append]

theorem Written.writeNext (h : Written name keys q) {s : Segment} {segments : List Segment}
    (hb : behind q = s :: segments) {q' : DelSubquery ε} (hp : q'.phase = .sendingQueryData)
    (hs : q'.segments = s :: segments) (hk : q'.backend = q.backend.writeQuery s.at_ s.bytes) :
    Asking name keys q' := by
  obtain ⟨opened, op, hw, hop⟩ := BackendConn.writeQuery_sends h.silent.connection s.at_ s.bytes
  rw [hw] at hk
  refine ⟨?_, ?_, s.at_, s.bytes, ?_, ?_⟩
  · rw [hp]
    rintro ⟨⟩
  · rw [hk]
    exact h.silent.writing
  · rw [hk]
    exact hop.imp (congrArg some) (congrArg some)
  · have hbehind : behind q' = segments := by simp only [behind, hp, hs, List.tail_cons]
    rw [hbehind, hk, ← h.sent, hb, List.flatMap_cons, List.append_assoc]

theorem Written.readReply (h : Written name keys q) (hb : behind q = []) :
    Listening name keys true
      { q with segments := [], phase := .readingReply, backend := q.backend.readReply } := by
  have hsent := h.sent
  rw [hb, List.flatMap_nil, List.append_nil] at hsent
  have hrelay : Relay q.backend.received 0 [] q.backend.buffer := by
    rw [h.silent.received]
    exact h.silent.relay
  exact ⟨h.query, hsent, rfl, hrelay.incRecycleLock, h.silent.incomplete, h.silent.noError,
    h.silent.locked.readReply h.silent.reading⟩

theorem Asking.connected (h : Asking name keys q) {at_ : Option ℕ} {data : Bytes}
    (hq : q.backend.query = some (.connecting at_ data)) :
    Asking name keys { q with backend := (q.backend.handle .connected).1 } := by
  obtain ⟨at', data', hq' | hq', hsent⟩ := h.query
  · cases hq.symm.trans hq'
    simp only [BackendConn.handle, hq]
    exact ⟨h.phase, h.silent.writing, at_, data, .inr rfl, hsent⟩
  · cases hq.symm.trans hq'

theorem Asking.written (h : Asking name keys q) {at_ : Option ℕ} {data : Bytes}
    (hq : q.backend.query = some (.writing at_ data)) :
    Written name keys { q with backend := (q.backend.handle .queryWritten).1 } := by
  obtain ⟨at', data', hq' | hq', hsent⟩ := h.query
  · cases hq.symm.trans hq'
  · cases hq.symm.trans hq'
    simp only [BackendConn.handle, hq]
    exact ⟨h.phase, h.silent.writing, rfl, hsent⟩

theorem Listening.replyRead (h : Listening name keys true q)
    (hc : chunk.length ≤ q.backend.buffer.freeSpaceSize) :
    Listening name keys false { q with backend := (q.backend.handle (.replyRead chunk)).1 } :=
  ⟨h.query, h.sent, rfl, h.relay.replyRead hc, h.incomplete, h.noError,
    h.locked.replyRead h.reading h.relay.valid hc⟩

theorem Listening.tryReadMoreReply (h : Listening name keys false q)
    (hroom : 1024 ≤ q.backend.buffer.bufferSize) (hr : q.backend.received.length < 40) :
    Listening name keys true { q with backend := q.backend.tryReadMoreReply } := by
  have hqueued : q.backend.buffer.queued.length < 40 := by
    have := h.relay.length_queued
    simp only [List.length_nil] at this
    omega
  rw [h.locked.tryReadMoreReply h.reading h.incomplete h.relay.valid hqueued hroom]
  exact ⟨h.query, h.sent, rfl, h.relay.incRecycleLock, h.incomplete, h.noError,
    h.locked.readReply h.reading⟩

@[simp] theorem subquery_setSubquery (c : RedisDelCommand ε) (b : ℕ) (s : DelSubquery ε) (i : ℕ) :
    (c.setSubquery b s).subquery i = if i = b then s else c.subquery i :=
  Function.update_apply c.subquery b s i

theorem backend_setSubquery (c : RedisDelCommand ε) (b : ℕ) (s : DelSubquery ε) (i : ℕ) :
    (c.setSubquery b s).backend i = if i = b then s.backend else c.backend i := by
  rw [backend, subquery_setSubquery]
  split
  next => rfl
  next => rfl

theorem setBackend_self (c : RedisDelCommand ε) (b : ℕ) : c.setBackend b (c.backend b) = c := by
  simp [setBackend, setSubquery, backend]

theorem backend_setBackend (c : RedisDelCommand ε) (b : ℕ) (k : BackendConn ε) :
    (c.setBackend b k).backend b = k := by
  rw [setBackend, backend_setSubquery, if_pos rfl]

theorem setBackend_setBackend (c : RedisDelCommand ε) (b : ℕ) (k k' : BackendConn ε) :
    (c.setBackend b k).setBackend b k' = c.setBackend b k' := by
  simp [setBackend, setSubquery]

theorem setSubquery_setBackend (c : RedisDelCommand ε) (b : ℕ) (k : BackendConn ε)
    (s : DelSubquery ε) :
    (c.setBackend b k).setSubquery b s = c.setSubquery b s := by
  simp [setBackend, setSubquery]

/-- What subquery `b` adds to the sum: the number of its keys that its backend holds. -/
def worth (held : ε → Bytes → Bool) (share : ℕ → List Bytes) (c : RedisDelCommand ε) (b : ℕ) : ℕ :=
  if (c.backend b).noRecycle then 0 else (share b).countP (held (c.backend b).remoteEndpoint)

/-- The keys `taken` from the request are shared out, and the subqueries in `done` have been
counted. -/
structure Ledger (held : ε → Bytes → Bool) (locate : Bytes → ε) (name : Bytes) (taken : List Bytes)
    (share : ℕ → List Bytes) (done : List ℕ) (c : RedisDelCommand ε) : Prop where
  verb : c.cmdName = name
  shares : ((List.range c.count).flatMap share).Perm taken
  located : ∀ b < c.count, ∀ key ∈ share b, locate key = (c.backend b).remoteEndpoint
  asked : ∀ b ∈ done, (c.backend b).sent <+: encodeStrings (name :: share b) ∧
    ((c.backend b).noRecycle = false → (c.backend b).sent = encodeStrings (name :: share b))
  total : c.totalDelCount = ((done.map (worth held share c)).sum : ℕ)

variable {held : ε → Bytes → Bool} {locate : Bytes → ε} {taken : List Bytes}
  {share : ℕ → List Bytes} {done : List ℕ} {c c' : RedisDelCommand ε} {b : ℕ}

theorem worth_le (held : ε → Bytes → Bool) (share : ℕ → List Bytes) (c : RedisDelCommand ε)
    (b : ℕ) :
    worth held share c b ≤ (share b).length := by
  unfold worth
  split
  next => exact Nat.zero_le _
  next => exact List.countP_le_length

theorem Ledger.sum_le (h : Ledger held locate name taken share done c) {l more : List ℕ}
    (hd : (l ++ more).Perm (List.range c.count)) :
    (l.map (worth held share c)).sum ≤ taken.length := by
  have hle : (l.map (worth held share c)).sum ≤ (l.map fun b => (share b).length).sum := by
    clear hd
    induction l with
    | nil => exact Nat.le_refl _
    | cons b l ih =>
      simp only [List.map_cons, List.sum_cons]
      exact Nat.add_le_add (worth_le held share c b) ih
  have hlen := h.shares.length_eq
  have hsum := (hd.map fun b => (share b).length).sum_nat
  rw [List.map_append, List.sum_append] at hsum
  rw [List.length_flatMap] at hlen
  omega

/-- The backends may change as long as those in `done` keep what was sent and how it ended. -/
theorem Ledger.congr (h : Ledger held locate name taken share done c)
    (hname : c'.cmdName = c.cmdName)
    (hcount : c'.count = c.count) (htotal : c'.totalDelCount = c.totalDelCount)
    (hep : ∀ i, (c'.backend i).remoteEndpoint = (c.backend i).remoteEndpoint)
    (hdone : ∀ i ∈ done, (c'.backend i).sent = (c.backend i).sent ∧
      (c'.backend i).noRecycle = (c.backend i).noRecycle) :
    Ledger held locate name taken share done c' := by
  refine ⟨hname.trans h.verb, hcount ▸ h.shares, fun i hi => ?_, fun i hi => ?_, ?_⟩
  · rw [hep]
    exact h.located i (hcount ▸ hi)
  · rw [(hdone i hi).1, (hdone i hi).2]
    exact h.asked i hi
  · rw [htotal, h.total]
    refine congrArg (fun l : List ℕ => (l.sum : ℤ)) (List.map_congr_left fun i hi => ?_)
    rw [worth, worth, hep, (hdone i hi).2]

theorem Ledger.setSubquery (h : Ledger held locate name taken share done c) {s : DelSubquery ε}
    (hep : s.backend.remoteEndpoint = (c.backend b).remoteEndpoint)
    (hdone : b ∈ done → s.backend.sent = (c.backend b).sent ∧
      s.backend.noRecycle = (c.backend b).noRecycle) :
    Ledger held locate name taken share done (c.setSubquery b s) := by
  refine h.congr rfl rfl rfl (fun i => ?_) fun i hi => ?_
  · rw [backend_setSubquery]
    split
    next he => rw [he, hep]
    next => rfl
  · rw [backend_setSubquery]
    split
    next he => exact he ▸ hdone (he ▸ hi)
    next => exact ⟨rfl, rfl⟩

theorem Ledger.count (h : Ledger held locate name taken share done c)
    (hsent : (c.backend b).sent <+: encodeStrings (name :: share b) ∧
      ((c.backend b).noRecycle = false → (c.backend b).sent = encodeStrings (name :: share b)))
    (hname : c'.cmdName = c.cmdName) (hcount : c'.count = c.count) (hback : c'.backend = c.backend)
    (htotal : c'.totalDelCount = c.totalDelCount + (worth held share c b : ℕ)) :
    Ledger held locate name taken share (done ++ [b]) c' := by
  have hworth : worth held share c' = worth held share c := by
    funext i
    rw [worth, worth, hback]
  refine ⟨hname.trans h.verb, hcount ▸ h.shares, ?_, fun i hi => ?_, ?_⟩
  · rw [hcount, hback]
    exact h.located
  · rw [hback]
    rcases List.mem_append.mp hi with hi | hi
    · exact h.asked i hi
    · rw [List.mem_singleton.mp hi]
      exact hsent
  · rw [htotal, h.total, hworth, List.map_append, List.sum_append]
    simp

/-- The state of the subqueries. -/
structure Gathering (held : ε → Bytes → Bool) (locate : Bytes → ε) (pool : Pool) (mem name : Bytes)
    (taken : List Bytes) (share : ℕ → List Bytes) (c : RedisDelCommand ε) : Prop where
  idle : c.reply = .idle
  ledger : Ledger held locate name taken share c.released c
  waiting : ∀ b ∈ c.waitingSubqueries, Waiting pool mem b (share b) (c.subquery b)
  pending : ∀ b ∈ c.pendingSubqueries, Slot name (share b) (c.subquery b)
  accounted : (c.released ++ (c.pendingSubqueries ++ c.waitingSubqueries)).Perm (List.range c.count)

section Gathering
variable {pool : Pool} {mem : Bytes}

theorem Gathering.nodup (h : Gathering held locate pool mem name taken share c) :
    (c.released ++ (c.pendingSubqueries ++ c.waitingSubqueries)).Nodup :=
  h.accounted.nodup_iff.mpr List.nodup_range

theorem Gathering.lt_count (h : Gathering held locate pool mem name taken share c)
    (hb : b ∈ c.released ++ (c.pendingSubqueries ++ c.waitingSubqueries)) : b < c.count :=
  List.mem_range.mp (h.accounted.mem_iff.mp hb)

theorem Gathering.notMem_released (h : Gathering held locate pool mem name taken share c)
    (hb : b ∈ c.pendingSubqueries ++ c.waitingSubqueries) : b ∉ c.released :=
  fun hr => (List.nodup_append.mp h.nodup).2.2 b hr b hb rfl

theorem Gathering.notMem_waiting (h : Gathering held locate pool mem name taken share c)
    (hb : b ∈ c.pendingSubqueries) : b ∉ c.waitingSubqueries :=
  fun hw => (List.nodup_append.mp (List.nodup_append.mp h.nodup).2.1).2.2 b hb b hw rfl

theorem Gathering.setSubquery (h : Gathering held locate pool mem name taken share c)
    (hb : b ∈ c.pendingSubqueries) {s : DelSubquery ε} (hs : Slot name (share b) s)
    (hep : s.backend.remoteEndpoint = (c.backend b).remoteEndpoint) :
    Gathering held locate pool mem name taken share (c.setSubquery b s) := by
  have hnr := h.notMem_released (List.mem_append_left _ hb)
  refine ⟨h.idle, h.ledger.setSubquery hep fun hr => absurd hr hnr, fun i hi => ?_, fun i hi => ?_,
    h.accounted⟩
  · rw [subquery_setSubquery, if_neg]
    · exact h.waiting i hi
    · rintro rfl
      exact h.notMem_waiting hb hi
  · rw [subquery_setSubquery]
    split
    next he => exact he ▸ hs
    next => exact h.pending i hi

theorem Gathering.renew (h : Gathering held locate pool mem name taken share c)
    (hw : c.waitingSubqueries = []) (mem' : Bytes) :
    Gathering held locate pool mem' name taken share c :=
  ⟨h.idle, h.ledger, by simp [hw], h.pending, h.accounted⟩

theorem Gathering.setUnparsed (h : Gathering held locate pool mem name taken share c) (n : ℕ) :
    Gathering held locate pool mem name taken share { c with unparsedBulks := n } :=
  ⟨h.idle, h.ledger.congr rfl rfl rfl (fun _ => rfl) fun _ _ => ⟨rfl, rfl⟩, h.waiting, h.pending,
    h.accounted⟩

theorem accounted_release (h : (c.released ++ (c.pendingSubqueries ++ c.waitingSubqueries)).Perm
    (List.range c.count)) (hb : b ∈ c.pendingSubqueries) :
    (c.released ++ [b] ++ (c.pendingSubqueries.filter (· ≠ b) ++ c.waitingSubqueries)).Perm
      (List.range c.count) := by
  have hnodup := h.nodup_iff.mpr List.nodup_range
  have hpending : c.pendingSubqueries.Nodup :=
    (List.nodup_append.mp (List.nodup_append.mp hnodup).2.1).1
  have herase : c.pendingSubqueries.filter (· ≠ b) = c.pendingSubqueries.erase b := by
    rw [hpending.erase_eq_filter]
    exact List.filter_congr fun i _ => by by_cases hi : i = b <;> simp [hi]
  have hperm : (b :: c.pendingSubqueries.filter (· ≠ b)).Perm c.pendingSubqueries :=
    herase ▸ (List.perm_cons_erase hb).symm
  refine List.Perm.trans ?_ h
  rw [List.append_assoc, ← List.append_assoc [b], List.singleton_append]
  exact (hperm.append_right _).append_left _

variable {key : Bytes} {off : ℕ}

theorem Ledger.extend (h : Ledger held locate name taken share done c)
    (hd : ∀ i ∈ done, i < c.count) {s : DelSubquery ε} (hs : s.backend.remoteEndpoint = locate key)
    (hcount : c'.count = c.count + 1) (hname : c'.cmdName = c.cmdName)
    (htotal : c'.totalDelCount = c.totalDelCount)
    (hsub : c'.subquery = Function.update c.subquery c.count s) :
    Ledger held locate name (taken ++ [key]) (Function.update share c.count [key]) done c' := by
  have hback : ∀ i < c.count, c'.backend i = c.backend i := by
    intro i hi
    rw [backend, hsub, Function.update_of_ne hi.ne]
    rfl
  have hshare : ∀ i < c.count, Function.update share c.count [key] i = share i := by
    intro i hi
    exact Function.update_of_ne hi.ne _ _
  refine ⟨hname.trans h.verb, ?_, fun i hi => ?_, fun i hi => ?_, ?_⟩
  · rw [hcount, Shares.extend]
    exact h.shares.append_right _
  · rcases Nat.lt_succ_iff_lt_or_eq.mp (hcount ▸ hi) with hlt | rfl
    · rw [hshare i hlt, hback i hlt]
      exact h.located i hlt
    · rw [Function.update_self, backend, hsub, Function.update_self, hs]
      intro key' hkey
      rw [List.mem_singleton.mp hkey]
  · rw [hback i (hd i hi), hshare i (hd i hi)]
    exact h.asked i hi
  · rw [htotal, h.total]
    refine congrArg (fun l : List ℕ => (l.sum : ℤ)) (List.map_congr_left fun i hi => ?_)
    rw [worth, worth, hback i (hd i hi), hshare i (hd i hi)]

theorem Ledger.grow (h : Ledger held locate name taken share done c) (hb : b < c.count)
    (hd : b ∉ done)
    (hep : (c.backend b).remoteEndpoint = locate key) (hname : c'.cmdName = c.cmdName)
    (hcount : c'.count = c.count) (htotal : c'.totalDelCount = c.totalDelCount)
    (hback : c'.backend = c.backend) :
    Ledger held locate name (taken ++ [key])
      (Function.update share b (share b ++ [key])) done c' := by
  have hshare : ∀ i ∈ done, Function.update share b (share b ++ [key]) i = share i :=
    fun i hi => Function.update_of_ne (fun he : i = b => hd (he ▸ hi)) _ _
  refine ⟨hname.trans h.verb, ?_, fun i hi => ?_, fun i hi => ?_, ?_⟩
  · rw [hcount]
    exact (Shares.grow hb share key).trans (h.shares.append_right _)
  · rw [hback]
    by_cases he : i = b
    · rw [he, Function.update_self]
      intro key' hkey
      rcases List.mem_append.mp hkey with hkey | hkey
      · exact h.located b hb key' hkey
      · rw [List.mem_singleton.mp hkey, hep]
    · rw [Function.update_of_ne he]
      exact h.located i (hcount ▸ hi)
  · rw [hback, hshare i hi]
    exact h.asked i hi
  · rw [htotal, h.total]
    refine congrArg (fun l : List ℕ => (l.sum : ℤ)) (List.map_congr_left fun i hi => ?_)
    rw [worth, worth, hback, hshare i hi]

theorem Waiting.single (pool : Pool) (b : ℕ) (ep : ε)
    (hmem : HoldsItems mem off (some key :: keys.map some)) :
    Waiting pool mem b [key] ⟨pool.allocate b ep, 1, .sendingPrefix,
      [⟨some off, Ptr.bytes ⟨mem, off⟩ (itemSize (some key))⟩]⟩ := by
  obtain ⟨hle, hbytes⟩ := hmem.head
  refine ⟨⟨ep, rfl⟩, rfl, rfl, ?_, _, [], off, itemSize (some key), rfl, rfl, hle⟩
  simp [hbytes, encodeItems]

theorem Waiting.grow {more : List Bytes} (h : Waiting pool mem b more q)
    (hmem : HoldsItems mem off (some key :: keys.map some)) :
    Waiting pool mem b (more ++ [key]) { q with
      keysCount := q.keysCount + 1
      segments := growSegments q.segments ⟨mem, off⟩ (itemSize (some key)) } := by
  obtain ⟨hle, hbytes⟩ := hmem.head
  obtain ⟨stop, hstop⟩ := h.ends
  obtain ⟨hflat, hend⟩ := growSegments_endsAt hstop hle
  refine ⟨h.backend, h.phase, ?_, ?_, _, hend⟩
  · rw [List.length_append, h.count]
    rfl
  · rw [hflat, h.segments, hbytes, List.map_append, RedisMgetCommand.encodeItems_append]
    simp [encodeItems]

section Push
variable [DecidableEq ε]

theorem Gathering.pushSubquery (h : Gathering held locate pool mem name taken share c)
    (hmem : HoldsItems mem off (some key :: keys.map some)) (buffer : ReadBuffer) :
    ∃ share', Gathering held locate pool mem name (taken ++ [key]) share'
      (pushSubquery pool (locate key) ⟨mem, off⟩ (itemSize (some key)) (buffer, c)).2 := by
  have hlt : ∀ i ∈ c.released, i < c.count := fun i hi => h.lt_count (List.mem_append_left _ hi)
  unfold RedisDelCommand.pushSubquery
  simp only
  split
  next =>
    have hold : ∀ i ∈ c.pendingSubqueries ++ c.waitingSubqueries, i ≠ c.count :=
      fun i hi => (h.lt_count (List.mem_append_right _ hi)).ne
    refine ⟨Function.update share c.count [key], h.idle,
      h.ledger.extend hlt (by rfl) rfl rfl rfl rfl, fun i hi => ?_, fun i hi => ?_, ?_⟩
    · rcases List.mem_append.mp hi with hi | hi
      · have hne := hold i (List.mem_append_right _ hi)
        simp only [subquery_setSubquery, if_neg hne, Function.update_of_ne hne]
        exact h.waiting i hi
      · obtain rfl := List.mem_singleton.mp hi
        simp only [subquery_setSubquery, if_true, Function.update_self]
        exact .single pool _ _ hmem
    · have hne := hold i (List.mem_append_left _ hi)
      simp only [subquery_setSubquery, if_neg hne, Function.update_of_ne hne]
      exact h.pending i hi
    · simp only [RedisDelCommand.setSubquery, List.range_succ]
      rw [← List.append_assoc, ← List.append_assoc, List.append_assoc c.released]
      exact h.accounted.append_right _
  next b hfind =>
    have hb : b ∈ c.waitingSubqueries := List.mem_of_find?_eq_some hfind
    have hep : (c.backend b).remoteEndpoint = locate key := by simpa using List.find?_some hfind
    have hmem' : b ∈ c.pendingSubqueries ++ c.waitingSubqueries := List.mem_append_right _ hb
    refine ⟨Function.update share b (share b ++ [key]), h.idle,
      h.ledger.grow (h.lt_count (List.mem_append_right _ hmem')) (h.notMem_released hmem') hep
        rfl rfl rfl ?_, fun i hi => ?_, fun i hi => ?_, h.accounted⟩
    · funext i
      rw [backend_setSubquery]
      split
      next he => rw [he]; rfl
      next => rfl
    · rw [subquery_setSubquery]
      split
      next he =>
        rw [he, Function.update_self]
        exact (h.waiting b hb).grow hmem
      next hne =>
        rw [Function.update_of_ne hne]
        exact h.waiting i hi
    · have hne : i ≠ b := by
        rintro rfl
        exact h.notMem_waiting hi hb
      rw [subquery_setSubquery, if_neg hne, Function.update_of_ne hne]
      exact h.pending i hi

theorem pushSubquery_frame (pool : Pool) (ep : ε) (data : Ptr) (bytes : ℕ)
    (s : ReadBuffer × RedisDelCommand ε) :
    (pushSubquery pool ep data bytes s).2.replyingBackend = s.2.replyingBackend ∧
    (pushSubquery pool ep data bytes s).2.unparsedBulks = s.2.unparsedBulks ∧
    (pushSubquery pool ep data bytes s).2.waitingSubqueries ≠ [] := by
  unfold RedisDelCommand.pushSubquery
  simp only
  split
  next => exact ⟨rfl, rfl, by simp⟩
  next b hfind => exact ⟨rfl, rfl, List.ne_nil_of_mem (List.mem_of_find?_eq_some hfind)⟩

theorem Gathering.pushKeys (keys : List Bytes) :
    ∀ {taken : List Bytes} {share : ℕ → List Bytes} {off : ℕ}
    {s : ReadBuffer × RedisDelCommand ε}, Gathering held locate pool mem name taken share s.2 →
    (∀ key ∈ keys, itemSize (some key) < 2 ^ 31) → HoldsItems mem off (keys.map some) →
    ∃ share' s', (wholeItems mem off (keys.map some)).foldlM (pushKey locate pool) s = some s' ∧
      Gathering held locate pool mem name (taken ++ keys) share' s'.2 ∧
      s'.2.replyingBackend = s.2.replyingBackend ∧ s'.2.unparsedBulks = s.2.unparsedBulks ∧
      (keys ≠ [] ∨ s.2.waitingSubqueries ≠ [] → s'.2.waitingSubqueries ≠ []) := by
  induction keys with
  | nil =>
    intro taken share off s h _ _
    exact ⟨share, s, rfl, (List.append_nil taken).symm ▸ h, rfl, rfl,
      fun hn => hn.resolve_left (· rfl)⟩
  | cons key keys ih =>
    intro taken share off s h hsize hmem
    have hs := hsize key List.mem_cons_self
    have hkey := ((hmem.wholeBulk hs (itemSize (some key) : ℕ)).payload hs).1
    have hpush : pushKey locate pool s ⟨⟨mem, off⟩, (itemSize (some key) : ℕ)⟩ =
        some (RedisDelCommand.pushSubquery pool (locate key) ⟨mem, off⟩
          (itemSize (some key)) s) := by
      rw [pushKey, hkey, intToSize_natCast (by omega)]
      rfl
    obtain ⟨share', hg⟩ := h.pushSubquery hmem s.1
    obtain ⟨hr, hu, hw⟩ := pushSubquery_frame pool (locate key) ⟨mem, off⟩ (itemSize (some key)) s
    obtain ⟨share'', s', hfold, hg', hr', hu', hw'⟩ :=
      ih hg (fun k hk => hsize k (List.mem_cons_of_mem key hk)) hmem.tail
    refine ⟨share'', s', ?_, ?_, hr'.trans hr, hu'.trans hu, fun _ => hw' (.inr hw)⟩
    · rw [List.map_cons, wholeItems, List.foldlM_cons, hpush, Option.bind_eq_bind, Option.bind_some]
      exact hfold
    · rw [List.append_assoc] at hg'
      exact hg'

end Push

theorem Gathering.activate (hpool : ∀ k, AcceptedBufferSize (pool k).1.length) {bs : List ℕ}
    (h : Gathering held locate pool mem name taken share { c with waitingSubqueries := b :: bs }) :
    Gathering held locate pool mem name taken share
      { activate c b with waitingSubqueries := bs } := by
  have hw := h.waiting b List.mem_cons_self
  have hb : b ∈ c.pendingSubqueries ++ b :: bs := by simp
  have hsplit : c.pendingSubqueries ++ [b] ++ bs = c.pendingSubqueries ++ b :: bs := by simp
  have hnew : ∀ i ∈ c.pendingSubqueries ++ bs, i ≠ b := by
    have hnodup := (List.nodup_append.mp h.nodup).2.1
    have hperm : (c.pendingSubqueries ++ b :: bs).Perm (b :: (c.pendingSubqueries ++ bs)) :=
      List.perm_middle
    rintro i hi rfl
    exact (List.nodup_cons.mp (hperm.nodup_iff.mp hnodup)).1 hi
  have hverb : c.cmdName = name := h.ledger.verb
  obtain ⟨ep, hep⟩ := hw.backend
  unfold RedisDelCommand.activate
  refine ⟨h.idle, ?_, fun i hi => ?_, fun i hi => ?_, ?_⟩
  · have hledger : Ledger held locate name taken share c.released { c with
        pendingSubqueries := c.pendingSubqueries ++ [b], waitingSubqueries := bs } :=
      h.ledger.congr rfl rfl rfl (fun _ => rfl) fun _ _ => ⟨rfl, rfl⟩
    obtain ⟨op, opened, timer, hk⟩ := BackendConn.writeQuery_eq (c.backend b) none
      (delPrefix c.cmdName (c.subquery b).keysCount)
    have hsame := congrArg BackendConn.remoteEndpoint hk
    exact hledger.setSubquery (b := b) hsame fun hr => absurd hr (h.notMem_released hb)
  · have hne := hnew i (List.mem_append_right _ hi)
    simp only [setBackend, subquery_setSubquery, if_neg hne]
    exact h.waiting i (List.mem_cons_of_mem b hi)
  · simp only [setBackend, subquery_setSubquery]
    rcases List.mem_append.mp hi with hi | hi
    · rw [if_neg (hnew i (List.mem_append_left _ hi))]
      exact h.pending i hi
    · obtain rfl := List.mem_singleton.mp hi
      rw [if_pos rfl, hverb]
      exact hw.activate (hpool i)
  · exact hsplit ▸ h.accounted

theorem Gathering.activateAll (hpool : ∀ k, AcceptedBufferSize (pool k).1.length) (bs : List ℕ) :
    ∀ c : RedisDelCommand ε,
      Gathering held locate pool mem name taken share { c with waitingSubqueries := bs } →
      Gathering held locate pool mem name taken share
        { bs.foldl RedisDelCommand.activate c with waitingSubqueries := [] } ∧
      (bs.foldl RedisDelCommand.activate c).replyingBackend = c.replyingBackend ∧
      (bs.foldl RedisDelCommand.activate c).unparsedBulks = c.unparsedBulks ∧
      (bs.foldl RedisDelCommand.activate c).pendingSubqueries = c.pendingSubqueries ++ bs := by
  induction bs with
  | nil => exact fun c h => ⟨h, rfl, rfl, (List.append_nil _).symm⟩
  | cons b bs ih =>
    intro c h
    obtain ⟨hg, hr, hu, hp⟩ := ih (RedisDelCommand.activate c b) (h.activate hpool)
    exact ⟨hg, hr, hu, hp.trans (List.append_assoc _ [b] bs)⟩

end Gathering

theorem Ledger.share_subperm (h : Ledger held locate name taken share done c) (hb : b < c.count) :
    (share b).Subperm taken :=
  (Shares.subperm hb share).trans h.shares.subperm

theorem length_dec_mono {m n : ℕ} (h : m ≤ n) : (dec m).length ≤ (dec n).length := by
  have hpos : 0 < (dec n).length := List.length_pos_iff.mpr (dec_ne_nil n)
  have hlt : n < 10 ^ (dec n).length := by
    rw [dec, List.length_map]
    refine (Nat.length_toDigits_le_iff (by decide) ?_).mp (Nat.le_refl _)
    rwa [dec, List.length_map] at hpos
  exact length_dec_le hpos (Nat.lt_of_le_of_lt h hlt)

theorem length_encodeStrings_subperm {some' all : List Bytes} (h : some'.Subperm all)
    (name : Bytes) :
    (encodeStrings (name :: some')).length ≤ (encodeStrings (name :: all)).length := by
  obtain ⟨l, hperm, hsub⟩ := h
  have hlen : some'.length ≤ all.length := hperm.length_eq ▸ hsub.length_le
  have hheader : (serializePrefix (name :: some').length).length ≤
      (serializePrefix (name :: all).length).length := by
    have := length_dec_mono (Nat.add_le_add_right hlen 1)
    simp only [serializePrefix, List.length_append, List.length_cons]
    omega
  have hitems : (encodeItems (some'.map some)).length ≤ (encodeItems (all.map some)).length := by
    have heq : (encodeItems (l.map some)).length = (encodeItems (some'.map some)).length :=
      ((hperm.map some).flatMap_right encodeItem).length_eq
    rw [← heq]
    exact (List.Sublist.flatMap (hsub.map some) encodeItem).length_le
  rw [length_encodeStrings, length_encodeStrings, List.map_cons, List.map_cons,
    length_encodeItems_cons, length_encodeItems_cons]
  omega

theorem length_keys_lt (h : (encodeStrings (name :: keys)).length < 2 ^ 31) :
    keys.length < 2 ^ 31 := by
  have hlen := length_lt_of_small h
  rw [List.length_map, List.length_cons] at hlen
  omega

theorem length_encodeItems_lt (h : (encodeStrings (name :: keys)).length < 2 ^ 31) :
    (encodeItems (keys.map some)).length < 2 ^ 31 := by
  rw [length_encodeStrings, List.map_cons, length_encodeItems_cons] at h
  omega

/-- The keys behind the verb of a query. -/
def askedKeys (sent : Bytes) : List Bytes :=
  match BulkArray.parse ⟨sent, 0⟩ sent.length with
  | some ba => (ba.items.drop 1).filterMap Bulk.payload
  | none => []

theorem askedKeys_encodeStrings (hs : (encodeStrings (name :: keys)).length < 2 ^ 31) :
    askedKeys (encodeStrings (name :: keys)) = keys := by
  have hwhole : ∃ ba, BulkArray.parse ⟨encodeStrings (name :: keys), 0⟩
      (encodeStrings (name :: keys)).length = some ba ∧ DecodedWhole (name :: keys) ba :=
    decodedWhole (List.cons_ne_nil name keys) hs (Nat.le_refl _) ⟨[], by simp [Ptr.bytes, Ptr.rest]⟩
  obtain ⟨ba, hparse, hba⟩ := hwhole
  have hpay : (ba.items.drop 1).map Bulk.payload = keys.map some := by
    rw [List.map_drop, hba.payload, List.map_cons, List.drop_one, List.tail_cons]
  rw [askedKeys, hparse]
  dsimp only
  have hid := List.filterMap_map (f := Bulk.payload) (g := id) (l := ba.items.drop 1)
  rw [Function.id_comp] at hid
  rw [← hid, hpay, List.filterMap_map]
  exact List.filterMap_some

/-- A backend answers a query with the number of the asked keys that it holds. -/
def answers (held : ε → Bytes → Bool) : World.Answers (RedisDelCommand ε) := fun c b bytes =>
  bytes <+: countReply ((askedKeys (c.backend b).sent).countP (held (c.backend b).remoteEndpoint))

theorem Listening.parseReply (h : Listening name keys false (c.subquery b)) (hn : n < 2 ^ 31)
    (hr : (c.backend b).received <+: countReply n) (hne : (c.backend b).received ≠ []) :
    c.parseReply b = some (c, true) ∨
    ∃ buffer, c.parseReply b = some ({ c.setBackend b { c.backend b with
          replyRecvComplete := true, buffer := buffer } with
        totalDelCount := Int.bmod (c.totalDelCount + n) (2 ^ 32) }, true) ∧
      Relay (countReply n) (countReply n).length [] buffer ∧
      buffer.bufferSize = (c.backend b).buffer.bufferSize := by
  have hrelay : Relay (c.backend b).received 0 [] (c.backend b).buffer := h.relay
  have hq : (c.backend b).buffer.queued = (c.backend b).received := by simpa using hrelay.bytes
  have ha : (c.backend b).buffer.ahead = 0 := by simpa using hrelay.parsed
  have hm := BackendConn.unparsedData_take hrelay.valid ha
  have hu : (c.backend b).buffer.unparsedBytes = (c.backend b).buffer.queued.length := by
    rw [ReadBuffer.unparsedBytes_eq hrelay.valid, ha, Nat.sub_zero]
  have hz : (c.backend b).buffer.queued.length ≠ 0 := by rw [hq]; simpa using hne
  have hline : countReply n = (ch ':' :: (dec n ++ [ch '\r'])) ++ [ch '\n'] := by
    simp [countReply, ascii, crlf, ch]
  have hbody : ch '\n' ∉ ch ':' :: (dec n ++ [ch '\r']) := by
    simp only [List.mem_cons, List.mem_append, List.not_mem_nil, or_false, not_or]
    refine ⟨by decide, fun hd => ?_, by decide⟩
    exact absurd (dec_isDigit _ hd) (by decide)
  rw [← hq] at hr hne
  have hr' := hr
  rw [hline] at hr'
  have h0 := BackendConn.mark_of_take hm hr' hne
  have hl := memchr_line hbody hr' hm
  rw [← hline] at hl
  unfold RedisDelCommand.parseReply
  simp only [hu, if_neg hz, h0, ne_eq, not_true_eq_false, if_false, hl]
  by_cases hw : (c.backend b).buffer.queued = countReply n
  · right
    simp only [if_pos hw]
    -- the number ends at the carriage return
    have hstoi : stoi ((c.backend b).buffer.unparsedData.rest.drop 1) = some (n : ℤ) := by
      rw [hw] at hm
      obtain ⟨rest, hrest⟩ : ∃ rest, (c.backend b).buffer.unparsedData.rest = countReply n ++
          rest :=
        ⟨_, (hm ▸ List.take_append_drop _ _).symm⟩
      have hdrop : (countReply n ++ rest).drop 1 = dec n ++ (crlf ++ rest) := by
        simp [countReply, ascii]
      rw [hrest, hdrop]
      exact stoi_dec hn (by simp [crlf]; decide)
    have hlen : (ch ':' :: (dec n ++ [ch '\r'])).length + 1 = (countReply n).length := by
      rw [hline, List.length_append, List.length_singleton]
    have hsource := hrelay.length_source
    have hparsed := hrelay.updateParsedBytes (n := (countReply n).length)
      (by rw [← hq, hw] at hsource; simp only [List.length_nil] at hsource ⊢; omega)
    rw [← hq, hw, Nat.zero_add] at hparsed
    refine ⟨_, ?_, hparsed, by simp⟩
    simp only [hstoi, hlen]
    rfl
  · left
    simp only [if_neg hw]

end RedisDelCommand
end Yarmproxy

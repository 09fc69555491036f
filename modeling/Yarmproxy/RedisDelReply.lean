import Yarmproxy.ContractBatch
import Yarmproxy.Outcome
import Yarmproxy.RedisDelShares

/-! # The count of a Redis `DEL`

A subquery that has been counted is handed back, unless it is the last one: that carries the sum
of all shares to the client. Every handler of the command keeps this. -/
namespace Yarmproxy
namespace RedisDelCommand

variable {ε : Type} {held : ε → Bytes → Bool} {locate : Bytes → ε} {pool : Pool} {mem name : Bytes}
  {keys taken : List Bytes} {share : ℕ → List Bytes} {c : RedisDelCommand ε} {b : ℕ}

/-- `taken` are the first of the keys, and `n` are still to come. -/
def Split (keys taken : List Bytes) (n : ℕ) : Prop := ∃ rest, keys = taken ++ rest ∧ rest.length = n

theorem Split.whole (h : Split keys taken 0) : taken = keys := by
  obtain ⟨rest, rfl, hrest⟩ := h
  rw [List.eq_nil_of_length_eq_zero hrest, List.append_nil]

theorem Split.length_le {n : ℕ} (h : Split keys taken n) : taken.length ≤ keys.length := by
  obtain ⟨rest, rfl, -⟩ := h
  rw [List.length_append]
  exact Nat.le_add_right _ _

/-- Subquery `b` has been counted; nothing is outstanding on it. -/
structure Concluded (held : ε → Bytes → Bool) (locate : Bytes → ε) (name : Bytes)
    (taken : List Bytes) (share : ℕ → List Bytes) (b : ℕ) (c : RedisDelCommand ε) : Prop where
  idle : c.reply = .idle
  ledger : Ledger held locate name taken share (c.released ++ [b]) c
  mem : b ∈ c.pendingSubqueries
  rest : c.waitingSubqueries = []
  others : ∀ i ∈ c.pendingSubqueries, i ≠ b → Slot name (share i) (c.subquery i)
  accounted : (c.released ++ (c.pendingSubqueries ++ c.waitingSubqueries)).Perm (List.range c.count)
  room : 1024 ≤ (c.backend b).buffer.bufferSize
  valid : (c.backend b).buffer.Valid
  query : (c.backend b).query = none
  reading : (c.backend b).isReadingReply = false
  complete : (c.backend b).replyRecvComplete = true

/-- All the keys have been counted, and backend `b` is left to carry the sum. -/
structure Last (held : ε → Bytes → Bool) (locate : Bytes → ε) (name : Bytes) (keys : List Bytes)
    (share : ℕ → List Bytes) (b : ℕ) (c : RedisDelCommand ε) : Prop where
  ledger : Ledger held locate name keys share (c.released ++ [b]) c
  pending : c.pendingSubqueries = [b]
  accounted : (c.released ++ [b]).Perm (List.range c.count)
  parsed : c.unparsedBulks = 0
  query : (c.backend b).query = none
  reading : (c.backend b).isReadingReply = false
  complete : (c.backend b).replyRecvComplete = true

/-- The buffer of backend `b` holds the sum, of which `forwarded` has been handed on. -/
abbrev Carries (forwarded : Bytes) (b : ℕ) (c : RedisDelCommand ε) : Prop :=
  Relay (replyCount c.totalDelCount) (replyCount c.totalDelCount).length forwarded
    (c.backend b).buffer

inductive Stands (held : ε → Bytes → Bool) (locate : Bytes → ε) (pool : Pool) (name : Bytes)
    (keys : List Bytes) (out : Bytes) (writing : Option (Option ℕ)) (first : Bool)
    (c : RedisDelCommand ε) : Prop where
  | gathering {mem : Bytes} {taken : List Bytes} {share : ℕ → List Bytes} : out = [] →
    writing = none →
    Split keys taken c.unparsedBulks → (c.unparsedBulks = 0 → c.pendingSubqueries ≠ []) →
    c.waitingSubqueries = [] → c.replyingBackend = none →
    Gathering held locate pool mem name taken share c →
      Stands held locate pool name keys out writing first c
  | ready {share : ℕ → List Bytes} {b : ℕ} : out = [] → writing = none → first = false →
    c.reply = .idle → c.replyingBackend = some b → Last held locate name keys share b c →
    Carries [] b c → Stands held locate pool name keys out writing first c
  | replied {share : ℕ → List Bytes} {b : ℕ} : out = replyCount c.totalDelCount →
    writing = some (some b) → first = true → c.reply = ⟨true, true⟩ →
    Last held locate name keys share b c → Carries (replyCount c.totalDelCount) b c →
    Stands held locate pool name keys out writing first c

/-- The command as it is rotated out. -/
def Finished (held : ε → Bytes → Bool) (locate : Bytes → ε) (name : Bytes) (keys : List Bytes)
    (out : Bytes) (c : RedisDelCommand ε) : Prop :=
  out = replyCount c.totalDelCount ∧ ∃ share b, Last held locate name keys share b c

theorem Last.total (h : Last held locate name keys share b c) :
    c.totalDelCount = (((List.range c.count).map (worth held share c)).sum : ℕ) ∧
      ((List.range c.count).map (worth held share c)).sum ≤ keys.length := by
  have hsum := (h.accounted.map (worth held share c)).sum_nat
  have hle := h.ledger.sum_le ((List.Perm.of_eq (List.append_nil _)).trans h.accounted)
  rw [hsum] at hle
  exact ⟨by rw [h.ledger.total, hsum], hle⟩

theorem Last.length_replyCount (h : Last held locate name keys share b c)
    (hk : keys.length < 2 ^ 31) :
    0 < (replyCount c.totalDelCount).length ∧ (replyCount c.totalDelCount).length < 40 := by
  obtain ⟨htotal, hle⟩ := h.total
  have hlt := Nat.lt_of_le_of_lt hle hk
  rw [htotal, replyCount_natCast hlt]
  exact length_countReply hlt

theorem Last.setBuffer (h : Last held locate name keys share b c) (buffer : ReadBuffer)
    (r : ReplyState) :
    Last held locate name keys share b
      { c.setBackend b { c.backend b with buffer := buffer } with reply := r } := by
  have hset : Ledger held locate name keys share (c.released ++ [b])
      (c.setBackend b { c.backend b with buffer := buffer }) :=
    h.ledger.setSubquery rfl fun _ => ⟨rfl, rfl⟩
  have hback := backend_setBackend c b { c.backend b with buffer := buffer }
  refine ⟨hset.congr rfl rfl rfl (fun _ => rfl) fun _ _ => ⟨rfl, rfl⟩, h.pending, h.accounted,
    h.parsed, ?_, ?_, ?_⟩
  · exact (congrArg BackendConn.query hback).trans h.query
  · exact (congrArg BackendConn.isReadingReply hback).trans h.reading
  · exact (congrArg BackendConn.replyRecvComplete hback).trans h.complete

theorem Concluded.release (h : Concluded held locate name taken share b c) {k : BackendConn ε}
    (hep : k.remoteEndpoint = (c.backend b).remoteEndpoint) (hsent : k.sent = (c.backend b).sent)
    (herr : k.noRecycle = (c.backend b).noRecycle) :
    Gathering held locate pool mem name taken share ((c.setBackend b k).release b) := by
  have hset : Ledger held locate name taken share (c.released ++ [b]) (c.setBackend b k) :=
    h.ledger.setSubquery hep fun _ => ⟨hsent, herr⟩
  refine ⟨h.idle, hset.congr rfl rfl rfl (fun _ => rfl) fun _ _ => ⟨rfl, rfl⟩, ?_, fun i hi => ?_,
    accounted_release h.accounted h.mem⟩
  · intro i hi
    have hi : i ∈ c.waitingSubqueries := hi
    rw [h.rest] at hi
    cases hi
  · obtain ⟨hi, hne⟩ := List.mem_filter.mp hi
    have hne : i ≠ b := by simpa using hne
    change Slot name (share i) ((c.setBackend b k).subquery i)
    rw [setBackend, subquery_setSubquery, if_neg hne]
    exact h.others i hi hne

theorem Gathering.conclude (h : Gathering held locate pool mem name taken share c)
    (hw : c.waitingSubqueries = []) (hb : b ∈ c.pendingSubqueries) {k : BackendConn ε} {total : ℤ}
    (hep : k.remoteEndpoint = (c.backend b).remoteEndpoint)
    (hsent : k.sent <+: encodeStrings (name :: share b) ∧
      (k.noRecycle = false → k.sent = encodeStrings (name :: share b)))
    (htotal : total = c.totalDelCount +
      ((if k.noRecycle then 0 else (share b).countP (held k.remoteEndpoint) : ℕ) : ℤ))
    (hroom : 1024 ≤ k.buffer.bufferSize) (hvalid : k.buffer.Valid) (hquery : k.query = none)
    (hreading : k.isReadingReply = false) (hcomplete : k.replyRecvComplete = true) :
    Concluded held locate name taken share b { c.setBackend b k with totalDelCount := total } := by
  have hnr := h.notMem_released (List.mem_append_left _ hb)
  have hback := backend_setBackend c b k
  have hset : Ledger held locate name taken share c.released (c.setBackend b k) :=
    h.ledger.setSubquery hep fun hr => absurd hr hnr
  refine ⟨h.idle, ?_, hb, hw, fun i hi hne => ?_, h.accounted, ?_, ?_, ?_, ?_, ?_⟩
  · refine hset.count ?_ rfl rfl rfl ?_
    · rw [hback]
      exact hsent
    · rw [worth, hback]
      exact htotal
  · change Slot name (share i) ((c.setBackend b k).subquery i)
    rw [setBackend, subquery_setSubquery, if_neg hne]
    exact h.pending i hi
  · exact hback.symm ▸ hroom
  · exact hback.symm ▸ hvalid
  · exact hback.symm ▸ hquery
  · exact hback.symm ▸ hreading
  · exact hback.symm ▸ hcomplete

theorem Concluded.stands (h : Concluded held locate name taken share b c)
    (hsplit : Split keys taken c.unparsedBulks)
    (hl : ¬ (c.unparsedBulks = 0 ∧ c.pendingSubqueries.length = 1)) (hn : c.replyingBackend = none)
    {k : BackendConn ε}
    (hep : k.remoteEndpoint = (c.backend b).remoteEndpoint) (hsent : k.sent = (c.backend b).sent)
    (herr : k.noRecycle = (c.backend b).noRecycle) (first : Bool) :
    Stands held locate pool name keys [] none first ((c.setBackend b k).release b) := by
  have hgathering : Gathering held locate pool [] name taken share ((c.setBackend b k).release b) :=
    h.release hep hsent herr
  refine .gathering rfl rfl hsplit (fun hu hnil => hl ⟨hu, ?_⟩) h.rest hn hgathering
  -- another subquery is left
  have hperm := accounted_release h.accounted h.mem
  have hlen := hperm.length_eq.trans h.accounted.length_eq.symm
  have hnil : c.pendingSubqueries.filter (· ≠ b) = [] := hnil
  rw [hnil] at hlen
  simp only [List.length_append, List.length_singleton, List.length_nil] at hlen
  omega

/-- The events that end the command and its client connection. -/
def Fatal : BackendEvent → Prop
  | .queryWriteFailed | .queryRefused | .replyReadFailed | .connectTimeout | .writeTimeout
  | .readTimeout => True
  | .connected | .connectFailed | .queryWritten | .replyRead _ => False

theorem Last.fatal (h : Last held locate name keys share b c) {i : ℕ} (hi : i ∈ c.pendingSubqueries)
    {e : BackendEvent} (hen : (c.backend i).Enabled e) : Fatal e := by
  rw [h.pending, List.mem_singleton] at hi
  subst hi
  cases e with
  | connected | connectFailed | queryWritten => simp [BackendConn.Enabled, h.query] at hen
  | replyRead chunk => simp [BackendConn.Enabled, h.reading] at hen
  | _ => trivial

theorem Gathering.started (h : Gathering held locate pool mem name taken share c)
    (hpool : ∀ k, AcceptedBufferSize (pool k).1.length) (hsplit : Split keys taken c.unparsedBulks)
    (hw : c.waitingSubqueries ≠ []) (hn : c.replyingBackend = none) (first : Bool) :
    Stands held locate pool name keys [] none first (activateWaitingSubquery c) := by
  obtain ⟨hg, hr, hu, hp⟩ := Gathering.activateAll hpool c.waitingSubqueries c h
  refine .gathering rfl rfl (hu.symm ▸ hsplit) (fun _ hnil => hw ?_) rfl (hr.trans hn) hg
  exact (List.append_eq_nil_iff.mp (hp.symm.trans hnil)).2

section Handlers
variable [DecidableEq ε] {x : Ctx (RedisDelCommand ε)} {out : Bytes} {writing : Option (Option ℕ)}
  {first : Bool}

/-- A handler of the command, started with `out` handed to the client socket. -/
abbrev Acted (held : ε → Bytes → Bool) (locate : Bytes → ε) (pool : Pool) (name : Bytes)
    (keys : List Bytes) (out : Bytes) (writing : Option (Option ℕ)) (first : Bool)
    (x : Ctx (RedisDelCommand ε)) : Prop :=
  Outcome (handlers locate pool) (fun o w => Stands held locate pool name keys o w first)
    (Finished held locate name keys) out writing first x

theorem tryWriteReply_acted (h : Last held locate name keys share b x.cmd)
    (hk : keys.length < 2 ^ 31) (hi : x.cmd.reply = .idle) (hc : Carries [] b x.cmd)
    (hf : x.first = true) (he : x.effects = []) :
    Acted held locate pool name keys [] none x.first (tryWriteReply b x) := by
  have hpos := (h.length_replyCount hk).1
  obtain ⟨data, buffer, -, hwrite, hrelay, -, -, hnone⟩ := hc.tryWriteReply_some b
    (r := x.cmd.reply) (by rw [hi]; rfl) (by
      rw [hc.unprocessedBytes, Nat.min_self]
      simpa using hpos)
  -- all of it is handed on
  have hdata : data = replyCount x.cmd.totalDelCount := by
    have hbytes := hrelay.bytes
    rw [hrelay.unprocessedBytes, Nat.min_self, List.nil_append] at hnone
    rw [List.nil_append] at hbytes
    have hprefix : data <+: replyCount x.cmd.totalDelCount := ⟨_, hbytes⟩
    exact hprefix.eq_of_length_le (by omega)
  subst hdata
  unfold RedisDelCommand.tryWriteReply
  rw [hwrite]
  have hlast := h.setBuffer buffer ⟨true, true⟩
  refine .wrote (by rw [Ctx.visible, he]; rfl) rfl hf ?_
    (.replied (b := b) rfl rfl hf rfl hlast ?_)
  · exact decide_eq_true h.parsed
  · have hback := backend_setBackend x.cmd b { x.cmd.backend b with buffer := buffer }
    change Relay _ _ _
      ((x.cmd.setBackend b { x.cmd.backend b with buffer := buffer }).backend b).buffer
    rw [hback]
    exact hrelay

theorem replyOrWait_acted (h : Concluded held locate name keys share b x.cmd)
    (hk : keys.length < 2 ^ 31) (hu : x.cmd.unparsedBulks = 0)
    (hl : x.cmd.pendingSubqueries.length = 1) (he : x.effects = []) :
    Acted held locate pool name keys [] none x.first (replyOrWait b x) := by
  have hpending : x.cmd.pendingSubqueries = [b] := by
    obtain ⟨i, hi⟩ := List.length_eq_one_iff.mp hl
    have hmem := h.mem
    rw [hi, List.mem_singleton] at hmem
    rw [hi, hmem]
  have haccounted := h.accounted
  rw [h.rest, hpending, List.append_nil] at haccounted
  have hlast : Last held locate name keys share b x.cmd :=
    ⟨h.ledger, hpending, haccounted, hu, h.query, h.reading, h.complete⟩
  have hlen := (hlast.length_replyCount hk).2
  have hrelay := Relay.setReplyData h.valid
    (show (replyCount x.cmd.totalDelCount).length ≤ (x.cmd.backend b).buffer.bufferSize by
      have := h.room
      omega) true
  rw [if_pos rfl] at hrelay
  generalize hB : (x.cmd.backend b).buffer.reset.pushReplyData
    (replyCount x.cmd.totalDelCount) true = buffer
    at hrelay
  have hset := hlast.setBuffer buffer x.cmd.reply
  have hcarries : Carries [] b (x.cmd.setBackend b { x.cmd.backend b with buffer := buffer }) := by
    rw [Carries, backend_setBackend]
    exact hrelay
  unfold replyOrWait BackendConn.setReplyData
  rw [hB]
  dsimp only
  split
  next hf =>
    exact tryWriteReply_acted (x := { x with cmd := x.cmd.setBackend b _ }) hset hk h.idle hcarries
      hf he
  next hf =>
    have hf : x.first = false := by simpa using hf
    have hready : Last held locate name keys share b { x.cmd.setBackend b { x.cmd.backend b with
        buffer := buffer } with replyingBackend := some b } :=
      ⟨hset.ledger.congr rfl rfl rfl (fun _ => rfl) fun _ _ => ⟨rfl, rfl⟩, hset.pending,
        hset.accounted, hset.parsed, hset.query, hset.reading, hset.complete⟩
    exact .quiet (by simp [Ctx.visible, he]) (.ready rfl rfl hf h.idle rfl hready hcarries)

theorem Concluded.settle (h : Concluded held locate name taken share b x.cmd)
    (hk : keys.length < 2 ^ 31) (hsplit : Split keys taken x.cmd.unparsedBulks)
    (hn : x.cmd.replyingBackend = none) (he : x.effects = []) :
    Acted held locate pool name keys [] none x.first
      (if x.cmd.unparsedBulks = 0 ∧ x.cmd.pendingSubqueries.length = 1 then replyOrWait b x
        else { x with cmd := x.cmd.release b }) := by
  split
  next hl =>
    rw [hl.1] at hsplit
    obtain rfl := hsplit.whole
    exact replyOrWait_acted h hk hl.1 hl.2 he
  next hl =>
    have hs : Stands held locate pool name keys [] none x.first
        ((x.cmd.setBackend b (x.cmd.backend b)).release b) :=
          h.stands hsplit hl hn rfl rfl rfl x.first
    rw [setBackend_self] at hs
    exact .quiet (by simp [Ctx.visible, he]) hs

theorem Acted.readMore (h : Acted held locate pool name keys out writing first x)
    (buffer : ReadBuffer) (p : Prop) [Decidable p] :
    Acted held locate pool name keys out writing first
      (if p then Ctx.emit { x with buffer := buffer } .tryReadMoreQuery
        else { x with buffer := buffer }) := by
  have hx : Acted held locate pool name keys out writing first { x with buffer := buffer } :=
    h.map rfl id (fun _ _ hs => hs) fun _ hr => hr
  split
  next => exact hx.emit rfl
  next => exact hx

theorem connectFailed_acted (h : Gathering held locate pool mem name taken share x.cmd)
    (hk : keys.length < 2 ^ 31) (hsplit : Split keys taken x.cmd.unparsedBulks)
    (hw : x.cmd.waitingSubqueries = []) (hn : x.cmd.replyingBackend = none)
    (hb : b ∈ x.cmd.pendingSubqueries) (ha : Asking name (share b) (x.cmd.subquery b))
    (he : x.effects = []) :
    Acted held locate pool name keys [] none x.first (onWriteQueryFinished b .connect { x with
      cmd := x.cmd.setBackend b ((x.cmd.backend b).handle .connectFailed).1 }) := by
  have hslot := h.pending b hb
  have hback := backend_setBackend x.cmd b ((x.cmd.backend b).handle .connectFailed).1
  have hconcluded : Concluded held locate name taken share b (x.cmd.setBackend b
      ((x.cmd.backend b).handle .connectFailed).1.setReplyRecvComplete.setNoRecycle) :=
    h.conclude hw hb rfl ⟨hslot.sent.1, by rintro ⟨⟩⟩ (by simp [BackendConn.setNoRecycle])
      hslot.room ha.silent.relay.valid rfl ha.silent.reading rfl
  unfold onWriteQueryFinished onBackendRecoverableError
  simp only [ne_eq, reduceCtorEq, not_false_eq_true, if_true, hback, setBackend_setBackend]
  generalize ((x.cmd.backend b).handle .connectFailed).1.setReplyRecvComplete.setNoRecycle = k
    at hconcluded ⊢
  exact Acted.readMore
    (hconcluded.settle (x := { x with cmd := x.cmd.setBackend b k }) hk hsplit hn he) _ _

theorem Gathering.proceed (h : Gathering held locate pool mem name taken share x.cmd)
    (hsplit : Split keys taken x.cmd.unparsedBulks) (hw : x.cmd.waitingSubqueries = [])
    (hn : x.cmd.replyingBackend = none) (hb : b ∈ x.cmd.pendingSubqueries) {q : DelSubquery ε}
    (hq : Slot name (share b) q) (hep : q.backend.remoteEndpoint = (x.cmd.backend b).remoteEndpoint)
    (buffer : ReadBuffer) (he : x.effects = []) :
    Acted held locate pool name keys [] none x.first
      { x with buffer := buffer, cmd := x.cmd.setSubquery b q } :=
  .quiet (by simp [Ctx.visible, he])
    (.gathering rfl rfl hsplit (fun _ => List.ne_nil_of_mem hb) hw hn (h.setSubquery hb hq hep))

theorem queryWritten_acted (h : Gathering held locate pool mem name taken share x.cmd)
    (hsplit : Split keys taken x.cmd.unparsedBulks) (hw : x.cmd.waitingSubqueries = [])
    (hn : x.cmd.replyingBackend = none) (hb : b ∈ x.cmd.pendingSubqueries) {at_ : Option ℕ}
    {data : Bytes} (hq : (x.cmd.backend b).query = some (.writing at_ data)) (he : x.effects = []) :
    Acted held locate pool name keys [] none x.first (onWriteQueryFinished b .success { x with
      cmd := x.cmd.setBackend b ((x.cmd.backend b).handle .queryWritten).1 }) := by
  have hslot := h.pending b hb
  have hquery : (x.cmd.subquery b).backend.query ≠ none := by
    rw [show (x.cmd.subquery b).backend.query = _ from hq]
    simp
  have hwritten := (hslot.asking hquery).written hq
  have hep : ((x.cmd.backend b).handle .queryWritten).1.remoteEndpoint =
      (x.cmd.backend b).remoteEndpoint ∧
      ((x.cmd.backend b).handle .queryWritten).1.buffer = (x.cmd.backend b).buffer := by
    simp only [BackendConn.handle, hq, and_self]
  change Written name (share b) { x.cmd.subquery b with
    backend := ((x.cmd.backend b).handle .queryWritten).1 } at hwritten
  generalize ((x.cmd.backend b).handle .queryWritten).1 = k at hwritten hep
  have hsub : (x.cmd.setBackend b k).subquery b = { x.cmd.subquery b with backend := k } := by
    rw [setBackend, subquery_setSubquery, if_pos rfl]
  have hroom : 1024 ≤ k.buffer.bufferSize := hep.2 ▸ hslot.room
  have hnext : ∀ (at_ : Option ℕ) (data : Bytes),
      (k.writeQuery at_ data).remoteEndpoint = (x.cmd.backend b).remoteEndpoint ∧
      1024 ≤ (k.writeQuery at_ data).buffer.bufferSize := by
    intro at_ data
    obtain ⟨op, opened, timer, hk⟩ := k.writeQuery_eq at_ data
    rw [hk]
    exact ⟨hep.1, hroom⟩
  unfold onWriteQueryFinished
  simp only [ne_eq, not_true_eq_false, if_false, hsub, setSubquery_setBackend]
  cases hp : (x.cmd.subquery b).phase with
  | sendingPrefix =>
    cases hs : (x.cmd.subquery b).segments with
    | nil => exact .stopped (Ctx.visible_emit_of_nil he rfl) (.inr (.inl rfl))
    | cons s segments =>
      refine h.proceed hsplit hw hn hb ⟨(hnext s.at_ s.bytes).2, .asking ?_⟩
        (hnext s.at_ s.bytes).1 _ he
      exact hwritten.writeNext (by simp only [behind, hp, hs]) rfl rfl rfl
  | sendingQueryData =>
    have hbehind : behind { x.cmd.subquery b with backend := k } =
        (x.cmd.subquery b).segments.tail := by
      simp only [behind, hp]
    cases hs : (x.cmd.subquery b).segments.tail with
    | nil =>
      refine h.proceed hsplit hw hn hb ⟨?_, .listening (hwritten.readReply (hbehind.trans hs))⟩
        hep.1 _ he
      exact hroom
    | cons s segments =>
      refine h.proceed hsplit hw hn hb ⟨(hnext s.at_ s.bytes).2, .asking ?_⟩
        (hnext s.at_ s.bytes).1 _ he
      exact hwritten.writeNext (hbehind.trans hs) rfl rfl rfl
  | readingReply => exact absurd hp hwritten.phase

theorem connected_acted (h : Gathering held locate pool mem name taken share x.cmd)
    (hsplit : Split keys taken x.cmd.unparsedBulks) (hw : x.cmd.waitingSubqueries = [])
    (hn : x.cmd.replyingBackend = none) (hb : b ∈ x.cmd.pendingSubqueries) {at_ : Option ℕ}
    {data : Bytes}
    (hq : (x.cmd.backend b).query = some (.connecting at_ data)) (he : x.effects = []) :
    Acted held locate pool name keys [] none x.first
      { x with cmd := x.cmd.setBackend b ((x.cmd.backend b).handle .connected).1 } := by
  have hslot := h.pending b hb
  have hquery : (x.cmd.subquery b).backend.query ≠ none := by
    rw [show (x.cmd.subquery b).backend.query = _ from hq]
    simp
  have hasking := (hslot.asking hquery).connected hq
  have hsame : ((x.cmd.backend b).handle .connected).1.remoteEndpoint =
      (x.cmd.backend b).remoteEndpoint ∧
      ((x.cmd.backend b).handle .connected).1.buffer = (x.cmd.backend b).buffer := by
    simp only [BackendConn.handle, hq, and_self]
  exact h.proceed hsplit hw hn hb ⟨hsame.2.symm ▸ hslot.room, .asking hasking⟩ hsame.1 x.buffer he

theorem replyReceived_acted (h : Concluded held locate name taken share b x.cmd)
    (hk : keys.length < 2 ^ 31) (hsplit : Split keys taken x.cmd.unparsedBulks)
    (hn : x.cmd.replyingBackend = none) (hu : (x.cmd.backend b).buffer.unparsedBytes = 0)
    (he : x.effects = []) :
    Acted held locate pool name keys [] none x.first (replyReceived b x) := by
  unfold replyReceived
  split
  next hl =>
    rw [hl.1] at hsplit
    obtain rfl := hsplit.whole
    exact replyOrWait_acted h hk hl.1 hl.2 he
  next hl =>
    rw [if_neg (by simp [hu])]
    dsimp only
    generalize (x.cmd.backend b).buffer.updateProcessedBytes
      (x.cmd.backend b).buffer.unprocessedBytes = buffer
    have hstands : Stands held locate pool name keys [] none x.first
        ((x.cmd.setBackend b { x.cmd.backend b with buffer := buffer }).release b) :=
      h.stands hsplit hl hn (k := { x.cmd.backend b with buffer := buffer }) rfl rfl rfl x.first
    split
    next => exact Outcome.emit (.quiet (by simp [Ctx.visible, he]) hstands) rfl
    next => exact .quiet (by simp [Ctx.visible, he]) hstands

theorem replyRead_acted {chunk : Bytes} (h : Gathering held locate pool mem name taken share x.cmd)
    (hs : (encodeStrings (name :: keys)).length < 2 ^ 31)
    (hsplit : Split keys taken x.cmd.unparsedBulks) (hw : x.cmd.waitingSubqueries = [])
    (hn : x.cmd.replyingBackend = none) (hb : b ∈ x.cmd.pendingSubqueries)
    (hr : (x.cmd.backend b).isReadingReply = true)
    (hc : chunk.length ≤ (x.cmd.backend b).buffer.freeSpaceSize) (hne : chunk ≠ [])
    (ha : answers held x.cmd b ((x.cmd.backend b).received ++ chunk)) (he : x.effects = []) :
    Acted held locate pool name keys [] none x.first (onBackendReplyReceived b .success
      { x with cmd := x.cmd.setBackend b ((x.cmd.backend b).handle (.replyRead chunk)).1 }) := by
  have hslot := h.pending b hb
  have hlistening := hslot.listening hr
  have hlt : b < x.cmd.count := h.lt_count (by simp [hb])
  -- the backend counts the keys of its share
  have hsub : (share b).Subperm keys := by
    obtain ⟨rest, rfl, -⟩ := hsplit
    exact (h.ledger.share_subperm hlt).trans (List.sublist_append_left _ _).subperm
  have hsmall := Nat.lt_of_le_of_lt (length_encodeStrings_subperm hsub name) hs
  have hsent : (x.cmd.backend b).sent = encodeStrings (name :: share b) := hlistening.sent
  rw [answers, hsent, askedKeys_encodeStrings hsmall] at ha
  have hkeys := length_keys_lt hs
  generalize hcount : (share b).countP (held (x.cmd.backend b).remoteEndpoint) = n at ha
  have hn31 : n < 2 ^ 31 := by
    have := List.countP_le_length (p := held (x.cmd.backend b).remoteEndpoint) (l := share b)
    have := hsub.length_le
    omega
  have hread := hlistening.replyRead hc
  have hback := backend_setBackend x.cmd b ((x.cmd.backend b).handle (.replyRead chunk)).1
  have hkept : ((x.cmd.backend b).handle (.replyRead chunk)).1.remoteEndpoint =
      (x.cmd.backend b).remoteEndpoint ∧
      ((x.cmd.backend b).handle (.replyRead chunk)).1.received = (x.cmd.backend b).received ++
        chunk ∧
      1024 ≤ ((x.cmd.backend b).handle (.replyRead chunk)).1.buffer.bufferSize :=
    ⟨rfl, rfl, by simpa using show 1024 ≤ (x.cmd.backend b).buffer.bufferSize from hslot.room⟩
  change Listening name (share b) false { x.cmd.subquery b with
    backend := ((x.cmd.backend b).handle (.replyRead chunk)).1 } at hread
  generalize ((x.cmd.backend b).handle (.replyRead chunk)).1 = k at hread hback hkept
  have hsub : (x.cmd.setBackend b k).subquery b = { x.cmd.subquery b with backend := k } := by
    rw [setBackend, subquery_setSubquery, if_pos rfl]
  have hincomplete : k.replyRecvComplete = false := hread.incomplete
  have hparse := Listening.parseReply (c := x.cmd.setBackend b k) (b := b) (n := n)
    (hsub ▸ hread) hn31
    (by rw [hback, hkept.2.1]; exact ha) (by rw [hback, hkept.2.1]; simp [hne])
  unfold onBackendReplyReceived
  simp only [ne_eq, not_true_eq_false, if_false]
  rcases hparse with hp | ⟨buffer, hp, hrelay, hsize⟩
  · rw [hp]
    simp only [Bool.not_true, Bool.false_eq_true, if_false, hback, hincomplete, Bool.not_false,
      if_true, setBackend_setBackend]
    have hshort : k.received.length < 40 := by
      rw [hkept.2.1]
      exact Nat.lt_of_le_of_lt ha.length_le (length_countReply hn31).2
    have hmore := hread.tryReadMoreReply hkept.2.2 hshort
    have hsame : k.tryReadMoreReply.remoteEndpoint = (x.cmd.backend b).remoteEndpoint ∧
        1024 ≤ k.tryReadMoreReply.buffer.bufferSize := by
      unfold BackendConn.tryReadMoreReply
      split
      next => exact ⟨hkept.1, hkept.2.2⟩
      next => exact ⟨hkept.1, hkept.2.2⟩
    exact h.proceed hsplit hw hn hb ⟨hsame.2, .listening hmore⟩ hsame.1 x.buffer he
  · rw [hback, setBackend_setBackend] at hp
    -- the sum does not overflow
    have hsum : Int.bmod (x.cmd.totalDelCount + n) (2 ^ 32) = x.cmd.totalDelCount + n := by
      have hle := h.ledger.sum_le (accounted_release h.accounted hb)
      rw [List.map_append, List.sum_append, List.map_singleton, List.sum_singleton, worth,
        if_neg (by simp [show (x.cmd.backend b).noRecycle = false from hslot.noError]), hcount]
          at hle
      have htaken := hsplit.length_le
      rw [h.ledger.total]
      apply Int.bmod_eq_of_le <;> omega
    rw [show (x.cmd.setBackend b k).totalDelCount = x.cmd.totalDelCount from rfl, hsum] at hp
    have hconcluded : Concluded held locate name taken share b { x.cmd.setBackend b { k with
        replyRecvComplete := true, buffer := buffer } with
        totalDelCount := x.cmd.totalDelCount + n } := by
      refine h.conclude hw hb hkept.1
        ⟨⟨[], (List.append_nil _).trans hread.sent⟩, fun _ => hread.sent⟩
        ?_ ?_ hrelay.valid hread.query hread.reading rfl
      · simp [show k.noRecycle = false from hread.noError, hkept.1, hcount]
      · rw [hsize, hback]
        exact hkept.2.2
    have hbuffer := congrArg BackendConn.buffer
      (backend_setBackend x.cmd b { k with replyRecvComplete := true, buffer := buffer })
    have hun : buffer.unparsedBytes = 0 := by rw [hrelay.unparsedBytes, Nat.sub_self]
    generalize hc' :
      ({ x.cmd.setBackend b { k with replyRecvComplete := true, buffer := buffer } with
      totalDelCount := x.cmd.totalDelCount + n } : RedisDelCommand ε) = c' at hp hconcluded
    have hframe : c'.unparsedBulks = x.cmd.unparsedBulks ∧
        c'.replyingBackend = x.cmd.replyingBackend ∧
        (c'.backend b).buffer.unparsedBytes = 0 := by
      rw [← hc']
      exact ⟨rfl, rfl, (congrArg ReadBuffer.unparsedBytes hbuffer).trans hun⟩
    rw [hp]
    simp only [Bool.not_true, Bool.false_eq_true, if_false, hconcluded.complete]
    exact replyReceived_acted (x := { x with cmd := c' }) hconcluded (by omega) (hframe.1 ▸ hsplit)
      (hframe.2.1.trans hn) hframe.2.2 he

theorem setBackend_backend (c : RedisDelCommand ε) (k : BackendConn ε)
    (h : (handlers locate pool).backend c b = some k) :
    (handlers locate pool).setBackend c b k = c := by
  simp only [handlers] at h ⊢
  split at h
  next =>
    cases h
    exact setBackend_self c b
  next => cases h

theorem fatal_acted {e : BackendEvent} (hf : Fatal e) (hb : b ∈ x.cmd.pendingSubqueries)
    (he : x.effects = []) :
    Acted held locate pool name keys out writing first
      ((handlers locate pool).onBackend b e x) := by
  have hk : (handlers locate pool).backend x.cmd b = some (x.cmd.backend b) := if_pos hb
  refine .stopped (e := .abort) ?_ (Or.inl rfl)
  rw [Ctx.visible, Handlers.effects_onBackend hk]
  cases e with
  | connected | connectFailed | queryWritten | replyRead _ => exact hf.elim
  | _ => exact Ctx.visible_emit_of_nil he rfl

theorem onBackend_acted {e : BackendEvent}
    (h : Stands held locate pool name keys out writing x.first x.cmd)
    (hs : (encodeStrings (name :: keys)).length < 2 ^ 31) (hb : b ∈ x.cmd.pendingSubqueries)
    (hen : (x.cmd.backend b).Enabled e)
    (ha : ∀ chunk, e = .replyRead chunk →
      answers held x.cmd b ((x.cmd.backend b).received ++ chunk)) (he : x.effects = []) :
    Acted held locate pool name keys out writing x.first
      ((handlers locate pool).onBackend b e x) := by
  by_cases hfatal : Fatal e
  · exact fatal_acted hfatal hb he
  have hk : (handlers locate pool).backend x.cmd b = some (x.cmd.backend b) := if_pos hb
  have hset : e.settled = true := by
    cases e <;> first | rfl | exact absurd trivial hfatal
  have hkeys := length_keys_lt hs
  cases h with
  | ready _ _ _ _ _ hlast _ => exact absurd (hlast.fatal hb hen) hfatal
  | replied _ _ _ _ hlast _ => exact absurd (hlast.fatal hb hen) hfatal
  | gathering hout hwriting hsplit hleft hw hn hg =>
    subst hout hwriting
    rw [Handlers.onBackend_eq setBackend_backend hk hset]
    cases e with
    | connected =>
      obtain ⟨at_, data, hq⟩ := hen
      have hact : Acted held locate pool name keys _ _ _ _ :=
        connected_acted hg hsplit hw hn hb hq he
      simp only [BackendConn.handle, hq] at hact ⊢
      exact hact
    | connectFailed =>
      obtain ⟨at_, data, hq⟩ := hen
      have hquery : (x.cmd.subquery b).backend.query ≠ none := by
        rw [show (x.cmd.subquery b).backend.query = _ from hq]
        simp
      exact connectFailed_acted hg (by omega) hsplit hw hn hb ((hg.pending b hb).asking hquery) he
    | queryWritten =>
      obtain ⟨at_, data, hq⟩ := hen
      have hact : Acted held locate pool name keys _ _ _ _ :=
        queryWritten_acted hg hsplit hw hn hb hq he
      simp only [BackendConn.handle, hq] at hact ⊢
      exact hact
    | replyRead chunk =>
      obtain ⟨hread, hne, hfit⟩ := hen
      exact replyRead_acted hg hs hsplit hw hn hb hread hfit hne (ha chunk rfl) he
    | _ => exact absurd trivial hfatal

theorem startWriteReply_acted (h : Stands held locate pool name keys out writing false x.cmd)
    (hk : keys.length < 2 ^ 31) (hf : x.first = true) (he : x.effects = []) :
    Acted held locate pool name keys out writing true (startWriteReply x) := by
  unfold startWriteReply
  cases h with
  | replied _ _ hfirst _ _ _ => cases hfirst
  | ready hout hwriting _ hidle hr hlast hcarries =>
    subst hout hwriting
    have hact : Acted held locate pool name keys _ _ _ _ :=
      tryWriteReply_acted hlast hk hidle hcarries hf he
    have hq : x.cmd.queryRecvComplete = true := decide_eq_true hlast.parsed
    rw [hr]
    dsimp only
    rw [if_pos hq]
    rwa [hf] at hact
  | gathering hout hwriting hsplit hleft hw hn hg =>
    rw [hn]
    exact .quiet (by simp [Ctx.visible, he]) (.gathering hout hwriting hsplit hleft hw hn hg)

theorem onWriteReplyFinished_acted
    (h : Stands held locate pool name keys out (some (some b)) x.first x.cmd)
    (he : x.effects = []) :
    Acted held locate pool name keys out none x.first (onWriteReplyFinished b .success x) := by
  cases h with
  | gathering _ hw _ _ _ _ _ => cases hw
  | ready _ hw _ _ _ _ _ => cases hw
  | replied hout hw hfirst hreply hlast hcarries =>
    cases hw
    have hrelay := hcarries.decRecycleLock
    have hfin : BackendConn.finished { x.cmd.backend b with
        buffer := (x.cmd.backend b).buffer.decRecycleLock } = true := by
      simp [BackendConn.finished, hlast.complete, hrelay.unprocessedBytes]
    unfold onWriteReplyFinished
    simp only [ne_eq, not_true_eq_false, if_false, hreply, Bool.not_true, Bool.false_eq_true,
      hfin, if_true]
    split
    next => exact .stopped (Ctx.visible_emit_of_nil he rfl) (Or.inr (Or.inl rfl))
    next =>
      exact .rotated (Ctx.visible_emit_of_nil he rfl) rfl ⟨hout, _, b, hlast.setBuffer _ _⟩

/-- The buffer goes on with the last `n` of the keys. -/
def Delivered (keys : List Bytes) (n : ℕ) (buffer : ReadBuffer) : Prop :=
  buffer.Valid ∧ (buffer.unparsed <+: encodeItems ((keys.drop (keys.length - n)).map some) ∨
    encodeItems ((keys.drop (keys.length - n)).map some) <+: buffer.unparsed)

omit [DecidableEq ε] in
theorem Delivered.upcoming {rest : List Bytes} {buffer : ReadBuffer}
    (h : Delivered (taken ++ rest) rest.length buffer)
    (hs : (encodeItems (rest.map some)).length < 2 ^ 31) : Upcoming buffer (rest.map some) := by
  obtain ⟨hv, hp⟩ := h
  rw [List.length_append, Nat.add_sub_cancel, List.drop_left] at hp
  refine ⟨hs, ?_⟩
  have hbytes : (buffer.data.drop buffer.parsedOffset).take buffer.unparsed.length =
      buffer.unparsed :=
    ReadBuffer.bytes_unparsedData hv
  rw [hbytes]
  rcases hp with hp | ⟨more, hp⟩
  · exact ⟨[], by rw [List.append_nil]; exact List.prefix_iff_eq_take.mp hp⟩
  · exact ⟨more, by rw [hp, List.take_length]⟩

theorem processUnparsed_upcoming {its : List Item} (h : Upcoming x.buffer its) (hv : x.buffer.Valid)
    (hlen : its.length = x.cmd.unparsedBulks) :
    ∃ m ≤ its.length, itemStart its m ≤ x.buffer.unparsed.length ∧ processUnparsed locate pool x =
      if m = 0 then some (if x.buffer.recycleLocked then x else x.emit .tryReadMoreQuery, true)
      else (activateUnparsed locate pool (itemStart its m : ℕ)
        (wholeItems x.buffer.data x.buffer.parsedOffset (its.take m)) x).bind fun y =>
          some (y, true) := by
  obtain ⟨m, hm, hstart, htake⟩ := takeUnparsed_upcoming h
  have hparse := h.parse hv
  rw [hlen] at hparse
  have hle : m ≤ its.length := Nat.le_trans hm (length_presentItems_le its _ _)
  have hwhole : (Upcoming.bulks x.buffer its).take m =
      wholeItems x.buffer.data x.buffer.parsedOffset (its.take m) := presentItems_take its hstart
  have hempty : (wholeItems x.buffer.data x.buffer.parsedOffset (its.take m)).isEmpty =
      decide (m = 0) := by
    rw [Bool.eq_iff_iff, List.isEmpty_iff, decide_eq_true_iff, ← List.length_eq_zero_iff,
      length_wholeItems, List.length_take]
    omega
  refine ⟨m, hle, hstart, ?_⟩
  unfold processUnparsed
  simp only [hparse, Option.bind_eq_bind, Option.bind_some]
  rw [if_neg (by omega), htake, Option.bind_some, hwhole]
  dsimp only
  rw [hempty]
  by_cases h0 : m = 0
  · rw [if_pos (decide_eq_true h0), if_pos h0]
  · rw [if_neg (by simpa using h0), if_neg h0]

theorem processUnparsedPart_acted (hpool : ∀ k, AcceptedBufferSize (pool k).1.length)
    (hs : (encodeStrings (name :: keys)).length < 2 ^ 31)
    (h : Stands held locate pool name keys out writing x.first x.cmd)
    (hq : x.cmd.queryRecvComplete = false) (hd : Delivered keys x.cmd.unparsedBulks x.buffer)
    (he : x.effects = []) :
    Acted held locate pool name keys out writing x.first
      (let (y, ok) := processUnparsedPart locate pool x
       if ok then y else y.emit .abort) := by
  have hopen : x.cmd.unparsedBulks ≠ 0 := by simpa [RedisDelCommand.queryRecvComplete] using hq
  cases h with
  | ready _ _ _ _ _ hlast _ => exact absurd hlast.parsed hopen
  | replied _ _ _ _ hlast _ => exact absurd hlast.parsed hopen
  | @gathering mem taken' share hout hwriting hsplit hleft hw hn hg =>
    subst hout hwriting
    have hstands : Acted held locate pool name keys [] none x.first x :=
      .quiet (by simp [Ctx.visible, he]) (.gathering rfl rfl hsplit hleft hw hn hg)
    obtain ⟨rest, rfl, hrest⟩ := hsplit
    rw [← hrest] at hd
    have hsub : rest.Subperm (taken' ++ rest) := (List.sublist_append_right _ _).subperm
    have hsmall :=
      length_encodeItems_lt (Nat.lt_of_le_of_lt (length_encodeStrings_subperm hsub name) hs)
    have hup := hd.upcoming hsmall
    obtain ⟨m, hm, hstart, hproc⟩ :=
      processUnparsed_upcoming hup hd.1 (by rw [List.length_map, hrest])
    rw [List.length_map] at hm
    unfold processUnparsedPart
    rw [hproc]
    by_cases h0 : m = 0
    · rw [if_pos h0]
      simp only [Option.getD_some, if_true]
      split
      next => exact hstands
      next => exact hstands.emit rfl
    · rw [if_neg h0]
      obtain ⟨more, hcontent⟩ := hup.content
      have hmem := HoldsItems.of_take hcontent hstart
      rw [← List.map_take] at hmem ⊢
      have hu : subSize x.cmd.unparsedBulks m = (rest.drop m).length := by
        have hle := length_le_encodeItems (rest.map some)
        rw [List.length_map] at hle
        rw [← hrest, subSize_eq hm (by omega), List.length_drop]
      obtain ⟨share', s', hpush, hg', hr, hu', hw'⟩ := Gathering.pushKeys (rest.take m)
        (s := (x.buffer, { x.cmd with unparsedBulks := subSize x.cmd.unparsedBulks m }))
        ((hg.renew hw x.buffer.data).setUnparsed _)
        (fun key hkey => Nat.lt_of_le_of_lt (itemSize_le_of_mem
          (List.mem_map_of_mem (List.mem_of_mem_take hkey))) hsmall) hmem
      have hact : activateUnparsed locate pool (itemStart (rest.map some) m : ℕ)
          (wholeItems x.buffer.data x.buffer.parsedOffset ((rest.take m).map some)) x =
            some { x with
            buffer := (s'.1.updateProcessedBytes
              (intToSize (itemStart (rest.map some) m : ℕ))).updateParsedBytes
              (intToSize (itemStart (rest.map some) m : ℕ))
            cmd := activateWaitingSubquery s'.2 } := by
        rw [activateUnparsed, length_wholeItems, List.length_map, List.length_take,
          Nat.min_eq_left hm]
        dsimp only
        rw [hpush]
        rfl
      rw [hact]
      simp only [Option.bind_some, Option.getD_some, if_true]
      have hne : rest.take m ≠ [] := by
        intro hnil
        have := congrArg List.length hnil
        rw [List.length_take, List.length_nil] at this
        omega
      refine .quiet (by simp [Ctx.visible, he])
        (hg'.started hpool ⟨rest.drop m, ?_, ?_⟩ (hw' (.inl hne)) (hr.trans hn) x.first)
      · rw [List.append_assoc, List.take_append_drop]
      · rw [hu', hu]

end Handlers
end RedisDelCommand
end Yarmproxy

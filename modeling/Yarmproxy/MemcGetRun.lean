import Yarmproxy.MemcGetAssembly

/-! # Runs of a memcached `get`

Each event keeps the reply schedule, except the arrival of a lone `END` on the replying
backend while the client write is in flight: then the backend is counted now and once more
when the write completes. -/
namespace Yarmproxy
namespace MemcGetCommand

variable {ε : Type} {blocks : ℕ → List ValueBlock} {out : Bytes} {writing : Option (Option ℕ)}
  {first : Bool} {counted arrived : List ℕ} {current : Bytes} {b : ℕ} {c : MemcGetCommand ε}

/-- A backend between two parts of its reply. -/
structure Incoming (vs : List ValueBlock) (forwarded : Bytes) (k : BackendConn ε) : Prop where
  room : 31 ≤ k.buffer.bufferSize
  query : k.query = none
  noError : k.noRecycle = false
  incomplete : k.replyRecvComplete = false
  relay : ∃ parts rest, vs = parts ++ rest ∧
    Relay k.received (valueBytes parts).length forwarded k.buffer

section Incoming
variable {vs : List ValueBlock} {forwarded target chunk : Bytes} {k : BackendConn ε} {last : Bool}

theorem Incoming.parsed (h : Incoming vs forwarded k) (ha : k.received <+: memcReply vs) :
    parseReplyLoop last k.buffer.unparsedBytes k = none ∨
    ∃ k', parseReplyLoop last k.buffer.unparsedBytes k = some (k', true) ∧
      k'.noRecycle = false ∧ k'.received = k.received ∧
      Heard vs (keptReply last vs) forwarded k' := by
  obtain ⟨parts, rest, rfl, hr⟩ := h.relay
  have hp : Parsed last (parts ++ rest) forwarded k
      (parseReplyLoop last k.buffer.unparsedBytes k) := parseReplyLoop_parsed _ hr ha le_rfl
  cases hp' : parseReplyLoop last k.buffer.unparsedBytes k with
  | none => exact Or.inl rfl
  | some r =>
    rw [hp'] at hp
    right
    cases hp with
    | @more buffer parts' rest' hvs hne hr' hsize =>
      refine ⟨_, rfl, h.noError, rfl, ?_, h.query, Or.inl ?_⟩
      · simpa [hsize] using h.room
      · exact ⟨h.incomplete, h.noError, ha, hne, _, _, hvs, hr'⟩
    | @complete buffer hall hr' hsize =>
      refine ⟨_, rfl, h.noError, rfl, ?_, h.query, Or.inr ?_⟩
      · simpa [hsize] using h.room
      · exact ⟨rfl, fun _ => hall, by simp [h.noError], hr'⟩

theorem Incoming.replyRead (h : Incoming vs forwarded k)
    (hc : chunk.length ≤ k.buffer.freeSpaceSize) :
    Incoming vs forwarded (k.handle (.replyRead chunk)).1 := by
  obtain ⟨parts, rest, hvs, hr⟩ := h.relay
  exact ⟨by simpa using h.room, h.query, h.noError, h.incomplete, parts, rest, hvs, hr.replyRead hc⟩

end Incoming

theorem Good.incoming {chunk : Bytes} (h : Good blocks out writing first c counted current [])
    (hb : b < c.count) (hread : (c.backend b).isReadingReply = true) (hne : chunk ≠ [])
    (ha : (c.backend b).received ++ chunk <+: memcReply (blocks b)) :
    Incoming (blocks b) (forwardedOf blocks c counted current b) (c.backend b) := by
  by_cases hmem : b ∈ c.receivedReplyBackends
  · have hh := h.heard b hmem
    rcases hh.state with hs | hs
    · exact ⟨hh.room, hh.query, hs.noError, hs.incomplete, hs.relay⟩
    · cases hn : (c.backend b).noRecycle with
      | true => simp [hs.quiet hn] at hread
      | false =>
        have hle := ha.length_le
        rw [hs.whole hn, List.length_append] at hle
        have := List.length_pos_iff.mpr hne
        omega
  · have hu := h.silent b hb hmem
    have hc : b ∉ counted := fun hc => hmem (h.mem_received (Or.inl hc))
    have hr : c.replyingBackend ≠ some b := fun hr => hmem (h.mem_received (Or.inr (Or.inl hr)))
    have hf : forwardedOf blocks c counted current b = [] := by simp [forwardedOf, hc, hr]
    refine ⟨hu.room, hu.query.resolve_right (by simp [hread]), hu.noError, hu.incomplete,
      [], blocks b, rfl, ?_⟩
    rw [hf, hu.received]
    exact hu.relay

theorem tryMarkLastBackend_of_mem (hb : b ∈ c.receivedReplyBackends) :
    c.tryMarkLastBackend b = c := if_pos hb

theorem tryMarkLastBackend_setBackend (k : BackendConn ε) :
    (c.setBackend b k).tryMarkLastBackend b = (c.tryMarkLastBackend b).setBackend b k := by
  by_cases hb : b ∈ c.receivedReplyBackends
  · rw [tryMarkLastBackend_of_mem hb, tryMarkLastBackend_of_mem]
    exact hb
  · have hb' : b ∉ (c.setBackend b k).receivedReplyBackends := hb
    rw [tryMarkLastBackend, tryMarkLastBackend, if_neg hb, if_neg hb']
    rfl

theorem setBackend_setBackend (k k' : BackendConn ε) :
    (c.setBackend b k).setBackend b k' = c.setBackend b k' := by
  simp [setBackend, setSubquery]

theorem Good.replyParsed {k : BackendConn ε}
    (h : Good blocks out writing first c counted current [])
    (hb : b < c.count) (hno : (c.backend b).noRecycle = false) (hk : k.noRecycle = false)
    (hc : b ∉ counted)
    (hh : Heard (blocks b) (keptReply ((c.tryMarkLastBackend b).lastBackend == some b) (blocks b))
      (forwardedOf blocks c counted current b) k) :
    ∃ arrived, (arrived = [b] ∨ arrived = [] ∧ b ∈ c.receivedReplyBackends) ∧
      Good blocks out writing first ((c.tryMarkLastBackend b).setBackend b k) counted current
        arrived := by
  by_cases hmem : b ∈ c.receivedReplyBackends
  · rw [tryMarkLastBackend_of_mem hmem] at hh ⊢
    refine ⟨[], Or.inr ⟨rfl, hmem⟩, h.setSubquery (hk.trans hno.symm) (fun _ => ?_)
      (fun hb' => absurd hb' hc) (fun hn => absurd hmem hn)⟩
    simpa [target, share, hno] using hh
  · have hr : c.replyingBackend ≠ some b := fun hr => hmem (h.mem_received (Or.inr (Or.inl hr)))
    refine ⟨[b], Or.inl rfl, h.arrive hb hmem ?_⟩
    simpa [target, share, hk, forwardedOf, hc, hr] using hh

section Frame
variable {x : Ctx (MemcGetCommand ε)}

theorem received_nextBackendStartReply (queue : List ℕ) : ∀ x : Ctx (MemcGetCommand ε),
    (nextBackendStartReply queue x).cmd.receivedReplyBackends = x.cmd.receivedReplyBackends := by
  induction queue with
  | nil => exact fun _ => rfl
  | cons b queue ih =>
    intro x
    simp only [nextBackendStartReply]
    split
    next =>
      split
      next => exact ih _
      next => rfl
    next => rfl

theorem received_backendReadyToReply :
    (backendReadyToReply b x).cmd.receivedReplyBackends = x.cmd.receivedReplyBackends := by
  unfold backendReadyToReply
  split
  next =>
    simp only
    split
    next =>
      unfold rotateReplyingBackend
      simp only
      split
      next => exact received_nextBackendStartReply _ _
      next => rfl
    next => rfl
  next =>
    split
    next => rfl
    next => rfl

end Frame

theorem Assembled.setBackend {k : BackendConn ε} (h : Assembled blocks out c)
    (hk : k.noRecycle = (c.backend b).noRecycle) : Assembled blocks out (c.setBackend b k) := by
  have he : ∀ i, ((c.setBackend b k).backend i).error = (c.backend i).error := by
    intro i
    rw [backend_setBackend, BackendConn.error, BackendConn.error]
    split
    next hi => rw [hi, hk]
    next => rfl
  refine ⟨h.counted, ?_⟩
  have hm : merged blocks (c.setBackend b k) = merged blocks c := by
    funext order
    simp only [merged, he]
  simpa only [count_setBackend, he, hm] using h.reply

theorem Assembled.endLine_suffix (h : Assembled blocks out c) (hc : c.count ≠ 1) :
    endLine <:+ out := by
  have hreply := h.reply
  rw [if_neg fun hone => hc hone.1] at hreply
  obtain ⟨order, _, rfl⟩ := hreply
  exact List.suffix_append _ _

theorem Scheduled.tryReadMoreReply (h : Scheduled blocks first out writing c)
    (hb : b ∈ c.receivedReplyBackends) :
    Scheduled blocks first out writing (c.setBackend b (c.backend b).tryReadMoreReply) := by
  obtain ⟨⟨counted, current, hg⟩, hready⟩ := h
  refine ⟨⟨counted, current, hg.setSubquery (noRecycle_tryReadMoreReply _).1 ?_ ?_ ?_⟩, hready⟩
  · exact fun hb => (hg.heard b hb).tryReadMoreReply
  · exact fun hc => (noRecycle_tryReadMoreReply _).2.trans (hg.done b hc)
  · exact fun hn => absurd hb hn

/-- The rest of the reply of `b` is its `END`, which is cut off, and all before it has been
handed to the client by a write that has not completed. -/
def EndWhileWriting (c : MemcGetCommand ε) (b : ℕ) (chunk : Bytes) : Prop :=
  c.replyingBackend = some b ∧ c.reply.isWriting = true ∧ c.lastBackend ≠ some b ∧
    (c.backend b).buffer.ahead = 0 ∧ (c.backend b).buffer.queued ++ chunk = endLine

instance (c : MemcGetCommand ε) (b : ℕ) (chunk : Bytes) : Decidable (EndWhileWriting c b chunk) :=
  inferInstanceAs (Decidable (_ ∧ _))

theorem endWhileWriting_of_finished {vs : List ValueBlock} {forwarded chunk : Bytes}
    {k k' : BackendConn ε} {last : Bool} (hin : Incoming vs forwarded k) (hne : chunk ≠ [])
    (hh : Heard vs (keptReply last vs) forwarded k') (hn : k'.noRecycle = false)
    (hk : k'.received = k.received ++ chunk) (hfin : k'.finished = true) :
    last = false ∧ k.buffer.ahead = 0 ∧ k.buffer.queued ++ chunk = endLine := by
  obtain ⟨parts, rest, rfl, hr⟩ := hin.relay
  have hfwd := hh.finished hfin
  have hwhole : k.received ++ chunk = memcReply (parts ++ rest) := by
    rcases hh.state with hs | hs
    · have := complete_of_finished hfin
      simp [hs.incomplete] at this
    · rw [← hk, hs.whole hn]
  have hbytes := hr.bytes
  cases last with
  | true =>
    rw [keptReply, if_pos rfl] at hfwd
    have := congrArg List.length hwhole
    have := congrArg List.length hbytes
    have := List.length_pos_iff.mpr hne
    simp only [List.length_append, hfwd] at *
    omega
  | false =>
    rw [keptReply, if_neg (by simp)] at hfwd
    refine ⟨rfl, ?_, ?_⟩
    · have := hr.parsed
      rw [hfwd, valueBytes, List.flatMap_append, List.length_append] at this
      rw [valueBytes] at this
      omega
    · rw [← hbytes, hfwd, memcReply, List.append_assoc] at hwhole
      exact List.append_cancel_left hwhole

section Events
variable {x : Ctx (MemcGetCommand ε)}

theorem replyRead_acted {chunk : Bytes} (h : Scheduled blocks x.first out writing x.cmd)
    (hb : b < x.cmd.count) (hread : (x.cmd.backend b).isReadingReply = true) (hne : chunk ≠ [])
    (hc : chunk.length ≤ (x.cmd.backend b).buffer.freeSpaceSize)
    (ha : (x.cmd.backend b).received ++ chunk <+: memcReply (blocks b))
    (hend : ¬ EndWhileWriting x.cmd b chunk) (he : x.effects = []) :
    Acted blocks out writing x.first (onBackendReplyReceived b .success
      { x with cmd := x.cmd.setBackend b ((x.cmd.backend b).handle (.replyRead chunk)).1 }) := by
  obtain ⟨⟨counted, current, hg⟩, hready⟩ := h
  have hin := hg.incoming hb hread hne ha
  have hnc : b ∉ counted := fun hc => by
    have := hg.done b hc
    simp [hin.incomplete] at this
  simp only [onBackendReplyReceived, ne_eq, not_true_eq_false, if_false, parseReply,
    tryMarkLastBackend_setBackend, backend_setBackend, if_true, lastBackend_setBackend]
  rcases (hin.replyRead hc).parsed ha with hp | ⟨k, hp, hk, hrec, hh⟩
  · rw [hp]
    exact .stopped (Ctx.visible_emit_of_nil he rfl) (Or.inr (Or.inr rfl))
  · rw [hp]
    simp only [if_true, setBackend_setBackend]
    obtain ⟨arrived, harr, hg'⟩ := hg.replyParsed hb hin.noError hk hnc hh
    have hmem : b ∈ ((x.cmd.tryMarkLastBackend b).setBackend b k).receivedReplyBackends := by
      rcases harr with rfl | ⟨rfl, hmem⟩
      · exact hg'.mem_received (by simp)
      · rwa [receivedReplyBackends_setBackend, tryMarkLastBackend_of_mem hmem]
    have hact : Acted blocks out writing x.first (backendReadyToReply b
        { x with cmd := (x.cmd.tryMarkLastBackend b).setBackend b k }) := by
      refine backendReadyToReply_acted
        (x := { x with cmd := (x.cmd.tryMarkLastBackend b).setBackend b k }) hg'
        (by simpa using hready) ?_ ?_ he
      · exact harr.imp id fun ⟨hnil, _⟩ => ⟨hnil, hmem, hnc⟩
      · intro hr hw
        by_contra hfin
        simp only [replyingBackend_setBackend, replyingBackend_tryMarkLastBackend,
          reply_setBackend, reply_tryMarkLastBackend, backend_setBackend, if_true,
          Bool.not_eq_false] at hr hw hfin
        have hrm : b ∈ x.cmd.receivedReplyBackends := hg.mem_received (Or.inr (Or.inl hr))
        obtain ⟨hl, hahead, hq⟩ := endWhileWriting_of_finished hin hne hh hk hrec hfin
        rw [tryMarkLastBackend_of_mem hrm] at hl
        exact hend ⟨hr, hw, by simpa using hl, hahead, hq⟩
    refine hact.map rfl id (fun _ _ hs => hs.tryReadMoreReply ?_)
      (fun _ hr => hr.setBackend (noRecycle_tryReadMoreReply _).1)
    rwa [received_backendReadyToReply]

theorem Scheduled.setUnheard {s : MemcSubquery ε} (h : Scheduled blocks first out writing c)
    (hb : b < c.count) (hn : b ∉ c.receivedReplyBackends) (hu : Unheard s.backend) :
    Scheduled blocks first out writing (c.setSubquery b s) := by
  obtain ⟨⟨counted, current, hg⟩, hready⟩ := h
  refine ⟨⟨counted, current, hg.setSubquery ?_ ?_ ?_ fun _ => hu⟩, hready⟩
  · rw [hu.noError, (hg.silent b hb hn).noError]
  · exact fun hmem => absurd hmem hn
  · exact fun hc => absurd (hg.mem_received (Or.inl hc)) hn

theorem Scheduled.querying (h : Scheduled blocks first out writing c) (hb : b < c.count)
    (hq : (c.backend b).query ≠ none) :
    b ∉ c.receivedReplyBackends ∧ Unheard (c.backend b) ∧ (c.backend b).isReadingReply = false := by
  obtain ⟨⟨counted, current, hg⟩, _⟩ := h
  have hn : b ∉ c.receivedReplyBackends := fun hmem => hq (hg.heard b hmem).query
  have hu := hg.silent b hb hn
  exact ⟨hn, hu, hu.query.resolve_left hq⟩

theorem Unheard.writeQuery {k : BackendConn ε} (h : Unheard k) (hr : k.isReadingReply = false)
    (at_ : Option ℕ) (data : Bytes) : Unheard (k.writeQuery at_ data) := by
  obtain ⟨op, opened, timer, hk⟩ := k.writeQuery_eq at_ data
  rw [hk]
  exact ⟨h.room, h.noError, h.incomplete, h.received, h.relay, Or.inr hr⟩

theorem connected_acted (h : Scheduled blocks x.first out writing x.cmd) (hb : b < x.cmd.count)
    (hq : (x.cmd.backend b).query ≠ none) (op : QueryOp) (he : x.effects = []) :
    Acted blocks out writing x.first { x with
      cmd := x.cmd.setBackend b
        { x.cmd.backend b with writeTimerCanceled := false, query := some op } } := by
  obtain ⟨hn, hu, hr⟩ := h.querying hb hq
  refine .quiet (by simp [Ctx.visible, he]) (h.setUnheard hb hn ?_)
  exact ⟨hu.room, hu.noError, hu.incomplete, hu.received, hu.relay, Or.inr hr⟩

theorem Scheduled.writeFront (h : Scheduled blocks first out writing c) (hb : b < c.count)
    (hn : b ∉ c.receivedReplyBackends) (hu : Unheard (c.backend b))
    (hr : (c.backend b).isReadingReply = false) :
    Scheduled blocks first out writing (c.writeFront b) := by
  unfold MemcGetCommand.writeFront
  split
  next => exact h
  next s _ _ => exact h.setUnheard hb hn (hu.writeQuery hr _ _)

theorem Unheard.readReply {k : BackendConn ε} (h : Unheard k) (hq : k.query = none) :
    Unheard k.readReply :=
  ⟨h.room, h.noError, h.incomplete, h.received, h.relay.incRecycleLock, Or.inl hq⟩

theorem Scheduled.unheard (h : Scheduled blocks first out writing c) (hb : b < c.count)
    (hn : b ∉ c.receivedReplyBackends) : Unheard (c.backend b) := by
  obtain ⟨⟨_, _, hg⟩, _⟩ := h
  exact hg.silent b hb hn

theorem onWriteQueryFinished_success_acted (h : Scheduled blocks x.first out writing x.cmd)
    (hb : b < x.cmd.count) (hn : b ∉ x.cmd.receivedReplyBackends)
    (hr : (x.cmd.backend b).isReadingReply = false) (hq : (x.cmd.backend b).query = none)
    (he : x.effects = []) :
    Acted blocks out writing x.first (onWriteQueryFinished b .success x) := by
  have hu := h.unheard hb hn
  have hs : ∀ segments, Scheduled blocks x.first out writing
      (x.cmd.setSubquery b { x.cmd.subquery b with segments := segments }) :=
    fun segments => h.setUnheard hb hn hu
  have hbackend : ∀ segments,
      (x.cmd.setSubquery b { x.cmd.subquery b with segments := segments }).backend b =
        x.cmd.backend b := by
    intro segments
    rw [backend_setSubquery, if_pos rfl]
    rfl
  unfold onWriteQueryFinished
  simp only [ne_eq, not_true_eq_false, if_false]
  split
  next => 
    refine .quiet (by simp [Ctx.visible, he]) ((hs _).writeFront hb hn ?_ ?_)
    · rwa [hbackend]
    · rwa [hbackend]
  next =>
    refine .quiet (by simp [Ctx.visible, he]) ((hs _).setUnheard hb hn ?_)
    simp only [hbackend]
    exact hu.readReply hq

theorem queryWritten_acted (h : Scheduled blocks x.first out writing x.cmd) (hb : b < x.cmd.count)
    (hq : (x.cmd.backend b).query ≠ none) (sent : Bytes) (he : x.effects = []) :
    Acted blocks out writing x.first (onWriteQueryFinished b .success { x with
      cmd := x.cmd.setBackend b
        { x.cmd.backend b with writeTimerCanceled := true, query := none, sent := sent } }) := by
  obtain ⟨hn, hu, hr⟩ := h.querying hb hq
  have hk : Unheard { x.cmd.backend b with
      writeTimerCanceled := true, query := none, sent := sent } :=
    ⟨hu.room, hu.noError, hu.incomplete, hu.received, hu.relay, Or.inl rfl⟩
  exact onWriteQueryFinished_success_acted (x := { x with cmd := x.cmd.setBackend b _ })
    (h.setUnheard hb hn hk) hb hn (by simpa using hr) (by simp) he

theorem Unheard.failed {k : BackendConn ε} (vs : List ValueBlock) (h : Unheard k)
    (hr : k.isReadingReply = false) (hq : k.query = none) (n : ℕ) (last : Option ℕ) :
    Heard vs (share n (last == some b) true vs) []
      (if some b = last then k.setReplyData (if 1 < n then endLine else memcErrorReply .connect)
        true
        else k).setReplyRecvComplete.setNoRecycle := by
  by_cases hl : some b = last
  · have hlen : (if 1 < n then endLine else memcErrorReply .connect).length ≤
        k.buffer.bufferSize := by
      have := h.room
      split
      next => exact le_trans (by decide) this
      next => exact le_trans (by decide) this
    have hrelay := Relay.setReplyData h.relay.valid hlen true
    rw [if_pos hl, ← hl, beq_self_eq_true]
    exact ⟨h.room, hq, Or.inr ⟨rfl, by simp [BackendConn.setNoRecycle], fun _ => hr, hrelay⟩⟩
  · have hl' : (last == some b) = false := by simpa using Ne.symm hl
    rw [if_neg hl, hl']
    exact ⟨h.room, hq, Or.inr ⟨rfl, by simp [BackendConn.setNoRecycle], fun _ => hr, h.relay⟩⟩

theorem failed_acted {k : BackendConn ε} (h : Scheduled blocks x.first out writing x.cmd)
    (hb : b < x.cmd.count) (hn : b ∉ x.cmd.receivedReplyBackends) (hk : k.noRecycle = true)
    (hh : Heard (blocks b) (share x.cmd.count
      ((x.cmd.tryMarkLastBackend b).lastBackend == some b) true (blocks b)) [] k)
    (he : x.effects = []) :
    Acted blocks out writing x.first (backendReadyToReply b
      { x with cmd := (x.cmd.tryMarkLastBackend b).setBackend b k }) := by
  obtain ⟨⟨counted, current, hg⟩, hready⟩ := h
  have harr := hg.arrive hb hn (k := k) (by simpa [target, hk] using hh)
  refine backendReadyToReply_acted
    (x := { x with cmd := (x.cmd.tryMarkLastBackend b).setBackend b k })
    harr (by simpa using hready) (Or.inl rfl) ?_ he
  intro hrep
  simp only [replyingBackend_setBackend, replyingBackend_tryMarkLastBackend] at hrep
  exact absurd (hg.mem_received (Or.inr (Or.inl hrep))) hn

theorem connectFailed_acted (h : Scheduled blocks x.first out writing x.cmd) (hb : b < x.cmd.count)
    (hq : (x.cmd.backend b).query ≠ none) (he : x.effects = []) :
    Acted blocks out writing x.first (onWriteQueryFinished b .connect { x with
      cmd := x.cmd.setBackend b ((x.cmd.backend b).handle .connectFailed).1 }) := by
  obtain ⟨hn, hu, hr⟩ := h.querying hb hq
  have hk : Unheard ((x.cmd.backend b).handle .connectFailed).1 :=
    ⟨hu.room, hu.noError, hu.incomplete, hu.received, hu.relay, Or.inl rfl⟩
  have hh :=
    hk.failed (b := b) (blocks b) hr rfl x.cmd.count (x.cmd.tryMarkLastBackend b).lastBackend
  unfold onWriteQueryFinished
  simp only [ne_eq, reduceCtorEq, not_false_eq_true, if_true, onBackendRecoverableError,
    tryMarkLastBackend_setBackend, setBackend_setBackend, backend_setBackend, count_setBackend,
    lastBackend_setBackend, count_tryMarkLastBackend]
  exact Outcome.emit (failed_acted h hb hn rfl hh he) rfl

/-- The events of backends under consideration: they answer, or refuse the connection. -/
def Covered : BackendEvent → Prop
  | .connected | .connectFailed | .queryWritten | .replyRead _ => True
  | _ => False

instance : ∀ e, Decidable (Covered e)
  | .connected | .connectFailed | .queryWritten | .replyRead _ => .isTrue trivial
  | .queryWriteFailed | .queryRefused | .replyReadFailed | .connectTimeout | .writeTimeout
  | .readTimeout => .isFalse id

theorem Covered.settled {e : BackendEvent} (h : Covered e) : e.settled = true := by
  cases e <;> first | rfl | exact h.elim

theorem setBackend_backend (c : MemcGetCommand ε) (k : BackendConn ε)
    (h : handlers.backend c b = some k) : handlers.setBackend c b k = c := by
  simp only [handlers] at h ⊢
  split at h
  next =>
    cases h
    exact setBackend_self c b
  next => cases h

theorem onBackend_acted {e : BackendEvent} (h : Scheduled blocks x.first out writing x.cmd)
    (hb : b < x.cmd.count) (hcov : Covered e) (hen : (x.cmd.backend b).Enabled e)
    (ha : ∀ chunk, e = .replyRead chunk →
      (x.cmd.backend b).received ++ chunk <+: memcReply (blocks b))
    (hend : ∀ chunk, e = .replyRead chunk → ¬ EndWhileWriting x.cmd b chunk)
    (he : x.effects = []) :
    Acted blocks out writing x.first (handlers.onBackend b e x) := by
  rw [Handlers.onBackend_eq (k := x.cmd.backend b) setBackend_backend (if_pos hb) hcov.settled]
  cases e with
  | connected =>
    obtain ⟨at_, data, hq⟩ := hen
    simp only [BackendConn.handle, hq]
    exact connected_acted h hb (by simp [hq]) _ he
  | connectFailed =>
    obtain ⟨at_, data, hq⟩ := hen
    exact connectFailed_acted h hb (by simp [hq]) he
  | queryWritten =>
    obtain ⟨at_, data, hq⟩ := hen
    simp only [BackendConn.handle, hq]
    exact queryWritten_acted h hb (by simp [hq]) _ he
  | replyRead chunk =>
    obtain ⟨hread, hne, hc⟩ := hen
    exact replyRead_acted h hb hread hne hc (ha chunk rfl) (hend chunk rfl) he
  | _ => exact hcov.elim

theorem onWriteReplyFinished_acted {r : ℕ}
    (h : Scheduled blocks x.first out (some (some r)) x.cmd) (he : x.effects = []) :
    Acted blocks out none x.first (onWriteReplyFinished r .success x) := by
  obtain ⟨⟨counted, current, hg⟩, hready⟩ := h
  obtain ⟨hrep, hi⟩ : x.cmd.replyingBackend = some r ∧ x.cmd.reply.isWriting = true := by
    rcases hg.writing with ⟨hn, _⟩ | ⟨r', hr, hw, hi⟩
    · simp at hn
    · simp only [Option.some.injEq] at hw
      exact ⟨hw ▸ hr, hi⟩
  have hmem : r ∈ x.cmd.receivedReplyBackends := hg.mem_received (Or.inr (Or.inl hrep))
  generalize hk : { x.cmd.backend r with buffer := (x.cmd.backend r).buffer.decRecycleLock } = k
  have hd : Good blocks out none x.first { x.cmd.setBackend r k with
      reply := { x.cmd.reply with isWriting := false } } counted current [] := by
    subst hk
    have h := hg.setSubquery (b := r) (s := { x.cmd.subquery r with
        backend := { x.cmd.backend r with buffer := (x.cmd.backend r).buffer.decRecycleLock } })
      rfl (fun hb => (hg.heard r hb).decRecycleLock) (hg.done r) (fun hn => absurd hmem hn)
    exact ⟨h.nodup, h.bound, h.last, h.completed, h.order, h.waits, h.out, h.idle,
      Or.inl ⟨rfl, rfl⟩, h.heard, h.done, h.silent⟩
  have hback : (x.cmd.setBackend r k).backend r = k := by simp
  unfold onWriteReplyFinished
  simp only [ne_eq, not_true_eq_false, if_false, hi, Bool.not_true, Bool.false_eq_true, hk]
  split
  next hfin =>
    split
    next => exact .stopped (Ctx.visible_emit_of_nil he rfl) (Or.inr (Or.inl rfl))
    next =>
      refine rotateReplyingBackend_acted (x := { x with cmd := { x.cmd.setBackend r k with
        reply := _ } }) hd hrep ?_ he
      exact (congrArg BackendConn.finished hback).trans hfin
  next hfin =>
    have hs : Scheduled blocks x.first out none { x.cmd.setBackend r k with
        reply := { x.cmd.reply with isWriting := false } } :=
      ⟨⟨_, _, hd⟩, fun _ hn => absurd (hrep.symm.trans hn) (by simp)⟩
    obtain ⟨⟨_, _, hg'⟩, _⟩ := hs.tryReadMoreReply (b := r) hmem
    rw [show MemcGetCommand.backend { x.cmd.setBackend r k with
      reply := { x.cmd.reply with isWriting := false } } r = k from hback] at hg'
    exact tryWriteReply_acted (x := { x with cmd := MemcGetCommand.setBackend _ _ _ }) hg' hrep he

theorem startWriteReply_acted (h : Scheduled blocks false out writing x.cmd) (he : x.effects = []) :
    Acted blocks out writing true (startWriteReply x) := by
  obtain ⟨⟨counted, current, hg⟩, hready⟩ := h
  obtain ⟨hr, rfl⟩ := hg.waits rfl
  obtain rfl := hg.idle hr
  obtain rfl : writing = none := by
    rcases hg.writing with ⟨hn, _⟩ | ⟨r, hr', _⟩
    · exact hn
    · simp [hr] at hr'
  have hx : { x.cmd with
      replyingBackend := none, waitingReplyQueue := x.cmd.waitingReplyQueue } = x.cmd := by
    rw [← hr]
  refine nextBackendStartReply_acted rfl _ _ [] he (hx.symm ▸ ?_)
  exact ⟨hg.nodup, hg.bound, hg.last, hg.completed, hg.order, by simp, hg.out, hg.idle, hg.writing,
    hg.heard, hg.done, hg.silent⟩

theorem count_writeFront : (c.writeFront b).count = c.count := by
  unfold writeFront
  split
  next => rfl
  next => rfl

/-- Nothing has been read yet. -/
structure Fresh (c : MemcGetCommand ε) : Prop where
  received : c.receivedReplyBackends = []
  reading : ∀ b, (c.backend b).isReadingReply = false

theorem Fresh.writeFront (h : Fresh c) : Fresh (c.writeFront b) := by
  unfold MemcGetCommand.writeFront
  split
  next => exact h
  next s _ _ =>
    refine ⟨h.received, fun i => ?_⟩
    obtain ⟨_, _, _, hk⟩ := (c.backend b).writeQuery_eq s.at_ s.bytes
    rw [backend_setBackend, hk]
    split
    next hi => exact h.reading b
    next => exact h.reading i

/-- `WriteQuery` of the first segments, one backend after the other. -/
theorem writeFronts_scheduled (bs : List ℕ) : ∀ c : MemcGetCommand ε, (∀ b ∈ bs, b < c.count) →
    Scheduled blocks first out writing c → Fresh c →
      Scheduled blocks first out writing (bs.foldl MemcGetCommand.writeFront c) := by
  induction bs with
  | nil => exact fun c _ h _ => h
  | cons b bs ih =>
    intro c hlt h hf
    have hb : b < c.count := hlt b (by simp)
    have hn : b ∉ c.receivedReplyBackends := by simp [hf.received]
    refine ih _ ?_ (h.writeFront hb hn (h.unheard hb hn) (hf.reading b)) hf.writeFront
    intro i hi
    rw [count_writeFront]
    exact hlt i (List.mem_cons_of_mem b hi)

theorem startWriteQuery_acted (h : Scheduled blocks x.first out writing x.cmd) (hf : Fresh x.cmd)
    (he : x.effects = []) : Acted blocks out writing x.first (startWriteQuery x).1 :=
  .quiet (by simp [startWriteQuery, Ctx.visible, he])
    (writeFronts_scheduled _ _ (fun _ hb => List.mem_range.mp hb) h hf)

end Events

/-- Backend `b` answers with `blocks b` and `END`. -/
def answers (blocks : ℕ → List ValueBlock) : World.Answers (MemcGetCommand ε) :=
  fun _ b bytes => bytes <+: memcReply (blocks b)

instance (c : MemcGetCommand ε) (b : ℕ) (bytes : Bytes) : Decidable (answers blocks c b bytes) :=
  inferInstanceAs (Decidable (_ <+: _))

/-- Backends reply or refuse the connection, client writes complete or fail, in any order. -/
def Considered (_ : World (MemcGetCommand ε)) : World.Event → Prop
  | .backend _ _ e => Covered e
  | _ => True

instance (w : World (MemcGetCommand ε)) : ∀ e, Decidable (Considered w e)
  | .backend _ _ e => inferInstanceAs (Decidable (Covered e))
  | .start _ | .parse _ | .continue_ _ | .process _ | .becomeFirst _ | .writeDone _
  | .writeFailed _ => .isTrue trivial

/-- The step is not the arrival of a lone `END` during a client write of the same backend. -/
def NoEndWhileWriting (w : World (MemcGetCommand ε)) (e : World.Event) : Prop :=
  Considered w e ∧ ∀ r ∈ e.replyRead?, ¬ EndWhileWriting w.cmd r.1 r.2

instance (w : World (MemcGetCommand ε)) (e : World.Event) : Decidable (NoEndWhileWriting w e) :=
  inferInstanceAs (Decidable (_ ∧ _))

section New
variable [DecidableEq ε] {locate : Bytes → ε} {pool : Pool} {buffer buffer' : ReadBuffer}
  {data : Ptr} {size : ℕ} {cmd : MemcGetCommand ε}

/-- What the constructor leaves alone, and backends as the pool hands them out. -/
structure Constructed (pool : Pool) (c : MemcGetCommand ε) : Prop where
  reply : c.reply = .idle
  replying : c.replyingBackend = none
  waiting : c.waitingReplyQueue = []
  last : c.lastBackend = none
  completed : c.completedBackends = 0
  received : c.receivedReplyBackends = []
  allocated : ∀ b, ∃ ep, c.backend b = pool.allocate b ep

theorem pushKey_constructed {s : ReadBuffer × MemcGetCommand ε} (h : Constructed pool s.2)
    (key : ℕ × ℕ) : Constructed pool (pushKey locate pool data s key).2 := by
  obtain ⟨buffer, c⟩ := s
  unfold pushKey
  simp only
  split
  next b _ =>
    refine ⟨h.reply, h.replying, h.waiting, h.last, h.completed, h.received, fun i => ?_⟩
    rw [backend_setSubquery]
    split
    next hi => exact hi ▸ h.allocated b
    next => exact h.allocated i
  next =>
    refine ⟨h.reply, h.replying, h.waiting, h.last, h.completed, h.received, fun i => ?_⟩
    change ∃ ep, (c.setSubquery c.count _).backend i = _
    rw [backend_setSubquery]
    split
    next hi =>
      rw [hi]
      exact ⟨_, rfl⟩
    next => exact h.allocated i

theorem new_constructed [Inhabited ε]
    (hn : new locate pool buffer data size = some (buffer', cmd)) :
    Constructed pool cmd := by
  have hfold : ∀ (keys : List (ℕ × ℕ)) (s : ReadBuffer × MemcGetCommand ε), Constructed pool s.2 →
      Constructed pool (keys.foldl (pushKey locate pool data) s).2 := by
    intro keys
    induction keys with
    | nil => exact fun _ h => h
    | cons key keys ih => exact fun s h => ih _ (pushKey_constructed h key)
  unfold new at hn
  simp only [Option.bind_eq_bind, Option.bind_eq_some_iff, Option.some.injEq, Prod.mk.injEq] at hn
  obtain ⟨keys, _, _, rfl⟩ := hn
  have h :=
    hfold keys (buffer, ⟨0, fun k => ⟨pool.allocate k default, []⟩, .idle, none, [], none, 0, []⟩)
    ⟨rfl, rfl, rfl, rfl, rfl, rfl, fun b => ⟨_, rfl⟩⟩
  exact ⟨h.reply, h.replying, h.waiting, h.last, h.completed, h.received, h.allocated⟩

end New

section Reachable
variable {pool : Pool} {cmd : MemcGetCommand ε}

theorem Constructed.fresh (h : Constructed pool cmd) : Fresh cmd := by
  refine ⟨h.received, fun b => ?_⟩
  obtain ⟨ep, hb⟩ := h.allocated b
  rw [hb]
  rfl

theorem Constructed.scheduled (h : Constructed pool cmd)
    (hp : ∀ k, AcceptedBufferSize (pool k).1.length) : Scheduled blocks first [] none cmd := by
  refine ⟨⟨[], [], ?_⟩, fun _ _ => h.waiting⟩
  refine ⟨by simp [h.received], by simp [h.received], ?_, h.completed, ?_,
    fun _ => ⟨h.replying, rfl⟩, rfl, fun _ => rfl, Or.inl ⟨rfl, by rw [h.reply]; rfl⟩,
    by simp [h.received], by simp, ?_⟩
  · rw [h.last, h.received]
    split
    next => rfl
    next => rfl
  · simp [h.received, h.replying, h.waiting]
  · intro b _ _
    obtain ⟨ep, hb⟩ := h.allocated b
    obtain ⟨hlo, hhi⟩ := (hp b).bounds
    rw [hb]
    refine ⟨?_, rfl, rfl, rfl, ⟨ReadBuffer.new_valid hhi, ?_, rfl⟩, Or.inl rfl⟩
    · exact le_trans (by decide) hlo
    · simp [Pool.allocate, BackendConn.allocated, ReadBuffer.new, ReadBuffer.queued]

theorem handlers_keep (h : Constructed pool cmd) (hp : ∀ k, AcceptedBufferSize (pool k).1.length) :
    Keeps handlers (answers blocks) NoEndWhileWriting cmd
      (fun out writing first c => Scheduled blocks first out writing c) (Assembled blocks) where
  start := by
    rintro w buf - rfl
    exact startWriteQuery_acted (x := ⟨buf, w.first, w.cmd, []⟩) (h.scheduled hp) h.fresh rfl
  parse := by rintro w buf - ⟨⟩
  continue_ := by rintro w buf - ⟨⟩
  process := by rintro w buf - ⟨⟩
  becomeFirst w buf _ hs := startWriteReply_acted (x := ⟨buf, true, w.cmd, []⟩) hs rfl
  backend := by
    intro w buf b e k hno hs hk hen hans
    obtain ⟨hb, rfl⟩ : b < w.cmd.count ∧ w.cmd.backend b = k := by
      simp only [handlers] at hk
      split at hk
      next hb => exact ⟨hb, Option.some.inj hk⟩
      next => cases hk
    exact onBackend_acted (x := ⟨buf, w.first, w.cmd, []⟩) hs hb hno.1 hen hans
      (fun chunk hc => hno.2 (b, chunk) (by rw [hc]; rfl)) rfl
  writeDone := by
    rintro w buf b - hs
    obtain ⟨⟨_, _, hg⟩, _⟩ := id hs
    rcases hg.writing with ⟨hn, _⟩ | ⟨r, _, hr, _⟩
    · cases hn
    · cases hr
      exact onWriteReplyFinished_acted (x := ⟨buf, w.first, w.cmd, []⟩) hs rfl
  writeFailed := by
    rintro w buf (_ | b) - hs
    · exact .stopped rfl (Or.inr (Or.inr rfl))
    · exact .stopped rfl (Or.inl rfl)

/-- A `get` that is rotated out has written the blocks of all the backends that answered, each
backend's once and together, and one `END` behind them; no client write is in flight then. -/
theorem reply_assembled [DecidableEq ε] [Inhabited ε] {locate : Bytes → ε}
    {buffer buffer' : ReadBuffer}
    {data : Ptr} {size : ℕ} (hp : ∀ k, AcceptedBufferSize (pool k).1.length)
    (hn : new locate pool buffer data size = some (buffer', cmd)) {w : World (MemcGetCommand ε)}
    (hw : Transition.Execution (World.system handlers (answers blocks)) NoEndWhileWriting
      (World.init cmd first) w) :
    w.rotatedWriting = false ∧
      (w.rotated = true → w.writing = none ∧ Assembled blocks w.out w.cmd) := by
  have hi := (handlers_keep (new_constructed hn) hp).reachable (B := fun _ => True) trivial
    (fun _ _ _ _ _ => trivial) hw
  exact ⟨hi.rotatedWriting, hi.whole⟩

end Reachable

def twoKeys : Ptr := ⟨ascii "get a b\r\n", 0⟩

def twoPool : Pool := fun _ => (List.replicate 1024 0, true)

/-- Key `b` lives on the second of two backends. -/
def twoLocate (key : Bytes) : Bool := key == ascii "b"

def oneBlock (key : Bytes) (h : key = ascii "a" ∨ key = ascii "b") : ValueBlock where
  key := key
  flags := ascii "0"
  extra := []
  body := ascii "x"
  key_ne := by rcases h with rfl | rfl <;> decide
  key_text := by rcases h with rfl | rfl <;> decide +kernel
  flags_text := by decide +kernel
  extra_text := by decide +kernel
  extra_head := by simp

def twoBlocks (b : ℕ) : List ValueBlock :=
  if b = 0 then [oneBlock (ascii "a") (Or.inl rfl)] else [oneBlock (ascii "b") (Or.inr rfl)]

def twoBuffer : ReadBuffer := .new (List.replicate 1024 0)

def twoNew : Option (ReadBuffer × MemcGetCommand Bool) :=
  new twoLocate twoPool twoBuffer twoKeys 9

theorem twoNew_isSome : twoNew.isSome = true := by decide +kernel

def twoCommand : MemcGetCommand Bool := (twoNew.get twoNew_isSome).2

/-- Both queries are sent; then the first backend sends its block and its `END` apart, the
`END` before the client has taken the block. -/
def doubleCount : List World.Event :=
  let buf := ReadBuffer.new []
  [.start buf, .backend buf 0 .queryWritten, .backend buf 0 .queryWritten,
    .backend buf 0 .queryWritten, .backend buf 1 .queryWritten, .backend buf 1 .queryWritten,
    .backend buf 1 .queryWritten, .backend buf 0 (.replyRead (ascii "VALUE a 0 1\r\nx\r\n")),
    .backend buf 0 (.replyRead (ascii "END\r\n")), .writeDone buf]

/-- The first backend is counted for its `END` and for the completed write: the command is
rotated out with neither an `END` nor the block of the second backend. -/
theorem doubleCount_truncates : ∃ w, Transition.Execution
    (World.system handlers (answers twoBlocks)) Considered (World.init twoCommand true) w ∧
    w.rotated = true ∧ w.aborted = false ∧ w.out = ascii "VALUE a 0 1\r\nx\r\n" ∧
    ¬ Assembled twoBlocks w.out w.cmd := by
  have hvalid : Transition.ValidTrace (World.system handlers (answers twoBlocks)) Considered
      (World.init twoCommand true) doubleCount := by
    decide +kernel
  have hout : (Transition.runTrace (World.system handlers (answers twoBlocks))
      (World.init twoCommand true) doubleCount).out = ascii "VALUE a 0 1\r\nx\r\n" := by
    decide +kernel
  have hcount : (Transition.runTrace (World.system handlers (answers twoBlocks))
      (World.init twoCommand true) doubleCount).cmd.count = 2 := by
    decide +kernel
  refine ⟨_, hvalid.execution .refl, by decide +kernel, by decide +kernel, hout, fun h => ?_⟩
  have hend := h.endLine_suffix (by rw [hcount]; decide)
  rw [hout] at hend
  exact absurd hend (by decide)

/-- The replies of both backends arrive whole, the second one first. -/
def orderlyRun : List World.Event :=
  let buf := ReadBuffer.new []
  [.start buf, .backend buf 0 .queryWritten, .backend buf 0 .queryWritten,
    .backend buf 0 .queryWritten, .backend buf 1 .queryWritten, .backend buf 1 .queryWritten,
    .backend buf 1 .queryWritten,
    .backend buf 1 (.replyRead (ascii "VALUE b 0 1\r\nx\r\nEND\r\n")),
    .backend buf 0 (.replyRead (ascii "VALUE a 0 1\r\nx\r\nEND\r\n")),
    .writeDone buf, .writeDone buf]

theorem orderlyRun_assembled : ∃ w, Transition.Execution
    (World.system handlers (answers twoBlocks)) NoEndWhileWriting (World.init twoCommand true) w ∧
    w.rotated = true ∧ w.writing = none ∧ Assembled twoBlocks w.out w.cmd := by
  have hvalid : Transition.ValidTrace (World.system handlers (answers twoBlocks)) NoEndWhileWriting
      (World.init twoCommand true) orderlyRun := by
    decide +kernel
  have hrun := hvalid.execution .refl
  have hrot : (Transition.runTrace (World.system handlers (answers twoBlocks))
      (World.init twoCommand true) orderlyRun).rotated = true := by
    decide +kernel
  have hsize : ∀ k, AcceptedBufferSize (twoPool k).1.length :=
    fun _ => ⟨0, by decide, List.length_replicate⟩
  have hnew : new twoLocate twoPool twoBuffer twoKeys 9 =
      some ((twoNew.get twoNew_isSome).1, twoCommand) :=
    (Option.some_get twoNew_isSome).symm
  exact ⟨_, hrun, hrot, (reply_assembled hsize hnew hrun).2 hrot⟩

end MemcGetCommand
end Yarmproxy

import Yarmproxy.RedisMgetPlan

/-! # Runs of a Redis `MGET`

Whatever the backends do, the client gets a part of the reply that the plan prescribes. The
reply may stop coming, though: a read that ends between two bulks is not followed by another. -/
namespace Yarmproxy

namespace Relay
variable {source forwarded chunk : Bytes} {position : ℕ} {buffer buffer' : ReadBuffer}
  (h : Relay source position forwarded buffer)
    (h' : Relay (source ++ chunk) position forwarded buffer')
include h h'

theorem grows (hne : chunk ≠ []) : 0 < buffer'.unparsedBytes ∨ 0 < buffer'.unprocessedBytes := by
  have := h.length_queued
  have hpos := List.length_pos_iff.mpr hne
  rw [h'.unparsedBytes, h'.unprocessedBytes, List.length_append]
  omega

theorem stays_due (hdue : 0 < buffer.parsedUnreceivedBytes ∨ 0 < buffer.unprocessedBytes) :
    0 < buffer'.parsedUnreceivedBytes ∨ 0 < buffer'.unprocessedBytes := by
  have := h.length_queued
  rw [h.parsedUnreceivedBytes, h.unprocessedBytes] at hdue
  rw [h'.parsedUnreceivedBytes, h'.unprocessedBytes, List.length_append]
  omega

end Relay

theorem Handlers.onBackend_readTimeout {ε C : Type} {h : Handlers ε C} {x : Ctx C} {b : ℕ}
    {k k' : BackendConn ε} (hk : h.backend x.cmd b = some k)
    (hk' : h.backend (h.onBackendReplyReceived b .backendReadTimeout
      { x with cmd := h.setBackend x.cmd b k }).cmd b = some k') :
    h.onBackend b .readTimeout x =
      let y :=
        h.onBackendReplyReceived b .backendReadTimeout { x with cmd := h.setBackend x.cmd b k }
      { y with cmd := h.setBackend y.cmd b k'.abort } := by
  unfold Handlers.onBackend
  simp only [hk, BackendConn.handle, hk', BackendConn.settle]

namespace RedisMgetCommand

variable {ε : Type} {store : ε → Bytes → Item} {clean : Prop} {plan done todo : Plan} {ep : ℕ → ε}
  {exempt : Option ℕ} {out : Bytes} {writing : Option (Option ℕ)} {first : Bool} {b : ℕ}
  {c : RedisMgetCommand ε} {S F : ℕ → Bytes} {buf : ReadBuffer}

theorem Good.silent (h : Good store clean plan ep exempt out writing first c done todo S F)
    (hb : b < c.count) (hs : S b = []) : keysOf done b = [] ∧ F b = [] ∧
      writing ≠ some (some b) ∧ ∀ queue, c.waitingReplyQueue ≠ (b, 0) :: queue := by
  have hlink := h.link b hb
  rw [hs] at hlink
  obtain ⟨hdone, hf, _⟩ := hlink.of_silent
  obtain ⟨_, _, _, hr⟩ := hlink.stream.of_silent
  refine ⟨hdone, hf, ?_, ?_⟩
  · rintro rfl
    obtain ⟨_, hw⟩ := h.client_busy
    exact hw.source hs
  · intro queue hq
    have hfront : c.front = some b := by simp [front, hq]
    cases h.progress with
    | idle _ _ _ hruns => exact absurd (hruns (b, 0) (by simp [hq])) (Nat.lt_irrefl 0)
    | heading _ _ _ hruns => exact absurd (hruns (b, 0) (by simp [hq])) (Nat.lt_irrefl 0)
    | body _ _ _ ht =>
      cases ht with
      | free _ _ hz =>
        have := hz b queue hq
        change 0 < (c.subquery b).backend.buffer.parsedUnreceivedBytes ∨
          0 < (c.subquery b).backend.buffer.unprocessedBytes at this
        rw [hr.parsedUnreceivedBytes, hr.unprocessedBytes] at this
        simp at this
      | busy _ _ hf _ _ _ hsource =>
        obtain rfl := Option.some.inj (hfront.symm.trans hf)
        exact hsource hs

theorem Good.free_of_silent (h : Good store clean plan ep exempt out writing first c done todo S F)
    (hb : writing ≠ some (some b)) (hfront : c.front = some b) (hheader : c.replyPrefix = []) :
    writing = none := by
  cases h.progress with
  | idle hp => exact absurd (hp.symm.trans hheader) (serializePrefix_ne_nil _)
  | heading hp => exact absurd (hp.symm.trans hheader) (serializePrefix_ne_nil _)
  | body _ _ _ ht =>
    cases ht with
    | free hw => exact hw
    | busy hw _ hf =>
      obtain rfl := Option.some.inj (hfront.symm.trans hf)
      exact absurd hw hb

theorem Good.locked_of_ne (h : Good store clean plan ep exempt out writing first c done todo S F)
    (hb : b < c.count) (hw : writing ≠ some (some b)) (he : (c.backend b).noRecycle = false) :
    Locked false (c.backend b) ∧ (writing == some (some b)) = false := by
  have hbeq : (writing == some (some b)) = false := by simpa using hw
  exact ⟨hbeq ▸ h.locked b hb he, hbeq⟩

theorem Scheduled.ask {s : MgetSubquery ε}
    (h : Scheduled store clean plan ep none first out writing c) (hb : b < c.count)
    (hq : (c.backend b).query ≠ none)
    (hlink : ∀ got due source forwarded, Link store clean got due source forwarded (c.subquery b) →
      Link store clean got due source forwarded s)
    (hconn : s.backend.remoteEndpoint = (c.backend b).remoteEndpoint ∧
      s.backend.noRecycle = (c.backend b).noRecycle)
    (hlocked : Locked false (c.backend b) → Locked false s.backend)
    (hbusy : s.backend.query ≠ none ∨ s.backend.isReadingReply = true) :
    Scheduled store clean plan ep none first out writing (c.setSubquery b s) := by
  obtain ⟨done, todo, S, F, hg, hb'⟩ := h
  have ha := (hg.link b hb).asking hq
  obtain ⟨hdone, hf, hw, hz⟩ := hg.silent hb ha.silent.1
  have he : s.backend.noRecycle = false := hconn.2.trans ha.noError
  obtain ⟨hl, hbeq⟩ := hg.locked_of_ne hb hw ha.noError
  refine ⟨done, todo, _, F, hg.setSubquery none hb (hlink _ _ _ _ (hg.link b hb)) hconn.1
    (fun _ => hbeq ▸ hlocked hl) (fun _ _ => .inl ha.silent.1) (fun hn => by cases he.symm.trans hn)
    (fun _ hi => by cases hi) (fun _ hi => by cases hi) (.inl hdone) (fun hwr => absurd hwr hw)
    (fun queue hq => absurd hq (hz queue)), ?_⟩
  intro hclean hp hwr f hf
  rw [backend_setSubquery]
  split
  next => exact hbusy.imp id fun hr => ⟨he, hr⟩
  next => exact hb' hclean hp hwr f hf

@[simp] theorem setSubquery_setSubquery (s s' : MgetSubquery ε) :
    (c.setSubquery b s).setSubquery b s' = c.setSubquery b s' := by
  simp [setSubquery]

@[simp] theorem backend_setBackend (k : BackendConn ε) (i : ℕ) :
    (c.setBackend b k).backend i = if i = b then k else c.backend i :=
  backend_setSubquery _ _

theorem connected_acted (h : Scheduled store clean plan ep none first out writing c)
    (hb : b < c.count)
    {at_ : Option ℕ} {data : Bytes} (hq : (c.backend b).query = some (.connecting at_ data)) :
    Acted store clean plan ep none out writing first ⟨buf, first, c.setBackend b
      { c.backend b with writeTimerCanceled := false, query := some (.writing at_ data) }, []⟩ :=
  .quiet rfl (h.ask hb (by simp [hq]) (fun _ _ _ _ hl => hl.connected hq) ⟨rfl, rfl⟩
    (fun hl => ⟨hl.locks, hl.compact⟩) (.inl (by simp)))

theorem queryWritten_acted (h : Scheduled store clean plan ep none first out writing c)
    (hb : b < c.count) {at_ : Option ℕ} {data : Bytes}
    (hq : (c.backend b).query = some (.writing at_ data)) :
    Acted store clean plan ep none out writing first (onWriteQueryFinished b .success ⟨buf, first,
      c.setBackend b { c.backend b with
        writeTimerCanceled := true, query := none, sent := (c.backend b).sent ++ data }, []⟩) := by
  have hread : (c.backend b).isReadingReply = false := by
    obtain ⟨_, _, _, _, hg, _⟩ := h
    exact ((hg.link b hb).asking (by simp [backend] at hq; simp [hq])).reading
  unfold onWriteQueryFinished
  simp only [ne_eq, not_true_eq_false, if_false, setBackend, subquery_setSubquery, if_true,
    setSubquery_setSubquery]
  split
  next hs =>
    refine .quiet
      rfl (h.ask hb (by simp [hq]) (fun _ _ _ _ hl => hl.readFirst hq hs true) ⟨rfl, rfl⟩
      (fun hl => Locked.readReply ⟨hl.locks, hl.compact⟩ hread) (.inr rfl))
  next segment segments hs =>
    have hlink := fun got due source forwarded
      (hl : Link store clean got due source forwarded (c.subquery b)) => hl.writeNext hq hs true
    obtain ⟨op, opened, timer, hk⟩ := BackendConn.writeQuery_eq { c.backend b with
      writeTimerCanceled := true, query := none, sent := (c.backend b).sent ++ data }
      segment.at_ segment.bytes
    refine .quiet rfl (h.ask hb (by simp [hq]) hlink ?_ ?_ ?_)
    · exact ⟨by simp only [hk], by simp only [hk]⟩
    · simp only [hk]
      exact fun hl => ⟨hl.locks, hl.compact⟩
    · simp only [hk]
      exact .inl (by simp)

theorem fail_acted {k : BackendConn ε} {exempt' : Option ℕ}
    (h : Good store clean plan ep none out writing first c done todo S F)
    (hbusy : clean → c.replyPrefix = [] → writing = none → Busy c) (hb : b < c.count)
    (hs : S b = []) (hbuffer : k.buffer = (c.backend b).buffer)
    (hep : k.remoteEndpoint = (c.backend b).remoteEndpoint) (hq : k.query = none)
    (hread : k.isReadingReply = true → exempt' = some b)
    (hexempt : ∀ i, exempt' = some i → i = b ∧ k.aborted = false) :
    Acted store clean plan ep exempt' out writing first
      (onBackendRecoverableError b ⟨buf, first, c.setBackend b k, []⟩) := by
  obtain ⟨hdone, hf, hw, hz⟩ := h.silent hb hs
  have hlink := h.link b hb
  rw [hs] at hlink
  have hfail := hlink.fail (k := k) (hbuffer ▸ hlink.stream.valid) (by rw [hbuffer]; rfl) hq
  rw [← hdone, ← hf] at hfail
  have hg := h.setSubquery exempt' hb hfail hep (fun hn => by cases hn) (fun hn => by cases hn)
    (fun _ hr => hread hr) ?_ (fun _ hi => by cases hi) (.inl hdone) (fun hwr => absurd hwr hw)
    (fun queue hq => absurd hq (hz queue))
  · unfold onBackendRecoverableError
    simp only [setBackend, backend_setSubquery, subquery_setSubquery, if_true,
      setSubquery_setSubquery]
    have hbody : 0 < (errorReplyBody (c.subquery b).keyCount).length := by
      rw [errorReplyBody_eq, encodeArray, List.length_append]
      have := four_le_serializePrefix (List.replicate (c.subquery b).keyCount (none : Item)).length
      omega
    refine backendReadyToReply_acted hg hb ?_ (h.free_of_silent hw) ?_ (.inl ?_) ?_
    · rw [Function.update_self]
      exact List.length_pos_iff.mp hbody
    · rw [backend_setSubquery, if_pos rfl]
      intro hn
      cases hn
    · rw [backend_setSubquery, if_pos rfl]
      have hroom : (errorReplyBody (c.subquery b).keyCount).length ≤ k.buffer.bufferSize := by
        rw [hlink.keyCount, hbuffer]
        exact hlink.room.2
      have hr := Relay.setReplyData (hbuffer ▸ hlink.stream.valid) hroom false
      exact hr.unparsedBytes.symm ▸ hbody
    · intro hclean hp hwr hne f hf
      have hfb : f ≠ b := fun hfb => hne (hfb ▸ hf)
      rw [backend_setSubquery, if_neg hfb]
      exact hbusy hclean hp hwr f hf
  · intro i hi
    obtain ⟨hib, ha⟩ := hexempt i hi
    rw [if_pos hib]
    exact ⟨rfl, ha⟩

/-- What is in front of the client when a backend is read from. -/
structure Reading (S : ℕ → Bytes) (b : ℕ) (writing : Option (Option ℕ)) (c : RedisMgetCommand ε) :
    Prop where
  noError : (c.backend b).noRecycle = false
  notWriting : writing ≠ some (some b)
  free : c.front = some b → c.replyPrefix = [] → writing = none
  source : S b = [] ∨
    (c.front = some b ∧ writing = none ∧ c.replyPrefix = [] ∧ c.replyingBackend = some b)

theorem Good.isReading (h : Good store clean plan ep none out writing first c done todo S F)
    (hb : b < c.count) (hread : (c.backend b).isReadingReply = true) : Reading S b writing c := by
  have he : (c.backend b).noRecycle = false := by
    rw [Bool.eq_false_iff]
    intro he
    cases h.quiet b hb he hread
  have hsource := h.reading b hb he hread
  have hw : writing ≠ some (some b) := by
    rintro rfl
    obtain ⟨_, hw⟩ := h.client_busy
    rw [hw.quiet he] at hread
    cases hread
  refine ⟨he, hw, fun hfront hheader => ?_, hsource⟩
  rcases hsource with hs | hs
  · exact h.free_of_silent hw hfront hheader
  · exact hs.2.1

theorem replyRead_acted {chunk : Bytes}
    (h : Scheduled store clean plan ep none first out writing c) (hb : b < c.count)
    (hread : (c.backend b).isReadingReply = true) (hne : chunk ≠ [])
    (hc : chunk.length ≤ (c.backend b).buffer.freeSpaceSize)
    (ha : (c.backend b).received ++ chunk <+: encodeArray ((keysOf plan b).map (store (ep b))))
    (hu : clean → Unbroken ((keysOf plan b).map (store (ep b))) ((c.backend b).received ++ chunk)) :
    Acted store clean plan ep none out writing first (onBackendReplyReceived b .success
      ⟨buf, first, c.setBackend b ((c.backend b).handle (.replyRead chunk)).1, []⟩) := by
  obtain ⟨done, todo, S, F, hg, hbusy⟩ := h
  obtain ⟨he, hw, hfree, hsource⟩ := hg.isReading hb hread
  have hplan : keysOf done b ++ keysOf todo b = keysOf plan b := by rw [← keysOf_append, hg.split]
  have hlink := hg.link b hb
  rw [← hplan, ← hg.endpoint b hb] at ha hu
  have hlink' := hlink.replyRead he hread hne hc ha hu
  obtain ⟨position, handed, hr⟩ := hlink.stream.relay
  have hr' : Relay (S b ++ chunk) position handed
      ((c.backend b).handle (.replyRead chunk)).1.buffer :=
    hr.replyRead hc
  obtain ⟨hl, hbeq⟩ := hg.locked_of_ne hb hw he
  have hg' := hg.setSubquery none hb hlink' rfl
    (fun _ => hbeq ▸ hl.replyRead hread hr.valid hc) (fun _ hn => by cases hn)
      (fun hn => by cases he.symm.trans hn)
    (fun _ hi => by cases hi) (fun _ hi => by cases hi) (.inr rfl) (fun hwr => absurd hwr hw) ?_
  · refine backendReadyToReply_acted hg' hb ?_ hfree ?_ ?_ ?_
    · rw [Function.update_self]
      exact fun hnil => hne (List.append_eq_nil_iff.mp hnil).2
    · intro _
      rw [backend_setBackend, if_pos rfl]
      rfl
    · rw [backend_setBackend, if_pos rfl]
      exact hr.grows hr' hne
    · intro hclean hp hwr hfr f hf
      have hfb : f ≠ b := fun hfb => hfr (hfb ▸ hf)
      rw [backend_setBackend, if_neg hfb]
      exact hbusy hclean hp hwr f hf
  · intro queue hq _
    refine hr.stays_due hr' ?_
    cases hg.progress with
    | idle _ _ _ hruns => exact absurd (hruns (b, 0) (by simp [hq])) (Nat.lt_irrefl 0)
    | heading _ _ _ hruns => exact absurd (hruns (b, 0) (by simp [hq])) (Nat.lt_irrefl 0)
    | body _ _ _ ht =>
      cases ht with
      | free _ _ hz => exact hz b queue hq
      | busy hwr _ hf =>
        obtain rfl := Option.some.inj ((show c.front = some b by simp [front, hq]).symm.trans hf)
        exact absurd hwr hw

theorem connectFailed_acted (h : Scheduled store clean plan ep none first out writing c)
    (hb : b < c.count) (hq : (c.backend b).query ≠ none) :
    Acted store clean plan ep none out writing first (onWriteQueryFinished b .connect
      ⟨buf, first, c.setBackend b ((c.backend b).handle .connectFailed).1, []⟩) := by
  obtain ⟨done, todo, S, F, hg, hbusy⟩ := h
  have ha := (hg.link b hb).asking hq
  refine Outcome.emit (fail_acted hg hbusy hb ha.silent.1 rfl rfl rfl ?_ (fun _ hi => by cases hi))
    rfl
  intro hr
  cases ha.reading.symm.trans hr

theorem readError_acted {k : BackendConn ε} {ec : ErrorCode} {exempt' : Option ℕ}
    (h : Scheduled store clean plan ep none first out writing c) (hb : b < c.count)
    (hread : (c.backend b).isReadingReply = true) (hec : ec ≠ .success)
    (hbuffer : k.buffer = (c.backend b).buffer)
    (hep : k.remoteEndpoint = (c.backend b).remoteEndpoint) (hq : k.query = (c.backend b).query)
    (hquiet : k.isReadingReply = true → exempt' = some b)
    (hexempt : ∀ i, exempt' = some i → i = b ∧ k.aborted = false) :
    Acted store clean plan ep exempt' out writing first
      (onBackendReplyReceived b ec ⟨buf, first, c.setBackend b k, []⟩) := by
  obtain ⟨done, todo, S, F, hg, hbusy⟩ := h
  have hr := hg.isReading hb hread
  have hs := (hg.link b hb).serving hr.noError hread
  unfold onBackendReplyReceived
  rw [if_pos hec]
  split
  next => exact .stopped rfl (.inl rfl)
  next hne =>
    have hsilent : S b = [] := hr.source.resolve_right fun hf => hne hf.2.2.2
    exact fail_acted hg hbusy hb hsilent hbuffer hep (hq.trans hs.query) hquiet hexempt

theorem Good.settle (h : Good store clean plan ep (some b) out writing first c done todo S F) :
    Good store clean plan ep none out writing first (c.setBackend b (c.backend b).abort) done todo
      (Function.update S b (S b)) F ∧ (c.backend b).query = none := by
  obtain ⟨hb, he, ha⟩ := h.exempted b rfl
  have hlink := h.link b hb
  have hf : Failed (keysOf done b ++ keysOf todo b) (S b) (c.subquery b) := by
    cases hlink.phase with
    | asking hp => cases hp.noError.symm.trans he
    | serving hp => cases hp.noError.symm.trans he
    | failed hp => exact hp
  have habort : (c.backend b).abort = { c.backend b with
      aborted := true
      isReadingReply := false
      socketOpen := false
      writeTimerCanceled := true
      readTimerCanceled := true } := by
    have hq : (c.backend b).query = none := hf.query
    rw [BackendConn.abort, if_neg (by simp [ha]), ← he, ← hq]
  refine ⟨?_, hf.query⟩
  rw [habort]
  have hlink' : Link store clean (keysOf done b) (keysOf todo b) (S b) (F b) { c.subquery b with
      backend := { c.backend b with
        aborted := true
        isReadingReply := false
        socketOpen := false
        writeTimerCanceled := true
        readTimerCanceled := true } } :=
    ⟨hlink.room, hlink.keyCount, hlink.countable, .failed ⟨hf.query, hf.error, hf.body⟩,
      ⟨hlink.stream.answer, hlink.stream.complete, hlink.stream.parsed⟩, hlink.unbroken⟩
  refine h.setSubquery none hb hlink' rfl (fun hn => by cases he.symm.trans hn)
    (fun hn => by cases he.symm.trans hn) (fun _ hr => by cases hr) (fun _ hi => by cases hi)
    (fun i hi hib => absurd (Option.some.inj hi).symm hib) (.inr rfl) ?_ ?_
  · rintro rfl
    obtain ⟨_, hw⟩ := h.client_busy
    exact ⟨hw.handed, hw.source⟩
  · intro queue hq hw
    cases h.progress with
    | idle _ _ _ hruns => exact absurd (hruns (b, 0) (by simp [hq])) (Nat.lt_irrefl 0)
    | heading _ _ _ hruns => exact absurd (hruns (b, 0) (by simp [hq])) (Nat.lt_irrefl 0)
    | body _ _ _ ht =>
      cases ht with
      | free _ _ hz => exact hz b queue hq
      | busy hwr => cases hw.symm.trans hwr

theorem Scheduled.settle (h : Scheduled store clean plan ep (some b) first out writing c) :
    Scheduled store clean plan ep none first out writing (c.setBackend b (c.backend b).abort) := by
  obtain ⟨done, todo, S, F, hg, hbusy⟩ := h
  obtain ⟨hg', hq⟩ := hg.settle
  refine ⟨done, todo, _, F, hg', fun hclean hp hw f hf => ?_⟩
  have hwait := hbusy hclean hp hw f hf
  rw [backend_setBackend]
  split
  next hfb =>
    subst hfb
    rcases hwait with hwait | hwait
    · exact absurd hq hwait
    · cases hwait.1.symm.trans (hg.exempted f rfl).2.1
  next => exact hwait

theorem Assembled.settle (h : Assembled store plan ep (some b) out c) :
    Assembled store plan ep none out (c.setBackend b (c.backend b).abort) := by
  have he := h.exempted b rfl
  have hsame : ∀ i, ((c.setBackend b (c.backend b).abort).backend i).remoteEndpoint =
      (c.backend i).remoteEndpoint ∧
      ((c.setBackend b (c.backend b).abort).backend i).noRecycle = (c.backend i).noRecycle := by
    intro i
    rw [backend_setBackend]
    split
    next hi =>
      rw [hi, BackendConn.abort]
      split
      · exact ⟨rfl, rfl⟩
      · exact ⟨rfl, he.symm⟩
    next => exact ⟨rfl, rfl⟩
  have hvalue : value store (c.setBackend b (c.backend b).abort) = value store c := by
    funext e
    rw [value, value, answer, answer, BackendConn.error, BackendConn.error, (hsame e.1).1,
      (hsame e.1).2]
  refine ⟨?_, fun i hi => (hsame i).1.trans (h.endpoint i hi), fun _ hi => by cases hi⟩
  rw [hvalue]
  exact h.reply

theorem setBackend_self (c : RedisMgetCommand ε) (b : ℕ) : c.setBackend b (c.backend b) = c :=
  setSubquery_self

theorem setBackend_backend (c : RedisMgetCommand ε) (k : BackendConn ε)
    (h : handlers.backend c b = some k) : handlers.setBackend c b k = c := by
  simp only [handlers] at h ⊢
  split at h
  next =>
    cases h
    exact setBackend_self c b
  next => cases h

theorem readTimeout_acted (h : Scheduled store clean plan ep none first out writing c)
    (hb : b < c.count) (hread : (c.backend b).isReadingReply = true)
    (ha : (c.backend b).aborted = false) :
    Acted store clean plan ep none out writing first
      (handlers.onBackend b .readTimeout ⟨buf, first, c, []⟩) := by
  have hact : Acted store clean plan ep (some b) out writing first
      (onBackendReplyReceived b .backendReadTimeout
        ⟨buf, first, c.setBackend b (c.backend b), []⟩) :=
    readError_acted h hb hread (by decide) rfl rfl rfl (fun _ => rfl)
      fun i hi => ⟨(Option.some.inj hi).symm, ha⟩
  have hcount : (onBackendReplyReceived b .backendReadTimeout
      (⟨buf, first, c.setBackend b (c.backend b), []⟩ : Ctx _)).cmd.count = c.count :=
    (onBackendReplyReceived_sameKeys (c := c) (setBackend_sameKeys _)).count
  have hk : handlers.backend c b = some (c.backend b) := if_pos hb
  have hk' : handlers.backend (onBackendReplyReceived b .backendReadTimeout
      (⟨buf, first, c.setBackend b (c.backend b), []⟩ : Ctx _)).cmd b = some _ :=
    if_pos (hcount.symm ▸ hb)
  rw [Handlers.onBackend_readTimeout hk hk']
  exact hact.map rfl id (fun _ _ hs => hs.settle) (fun _ hr => hr.settle)

/-- The events that end the command and its client connection. -/
def Fatal : BackendEvent → Prop
  | .queryWriteFailed | .queryRefused | .connectTimeout | .writeTimeout => True
  | .connected | .connectFailed | .queryWritten | .replyRead _ | .replyReadFailed | .readTimeout =>
    False

theorem fatal_acted {e : BackendEvent} (hf : Fatal e) (hb : b < c.count) :
    Acted store clean plan ep none out writing first
      (handlers.onBackend b e ⟨buf, first, c, []⟩) := by
  have hk : handlers.backend c b = some (c.backend b) := if_pos hb
  refine .stopped (e := .abort) ?_ (.inl rfl)
  rw [Ctx.visible, Handlers.effects_onBackend hk]
  cases e with
  | connected | connectFailed | queryWritten | replyRead _ | replyReadFailed | readTimeout =>
    exact hf.elim
  | _ => rfl

theorem onBackend_acted {e : BackendEvent}
    (h : Scheduled store clean plan ep none first out writing c) (hb : b < c.count)
    (hen : (c.backend b).Enabled e)
    (htimer : e = .readTimeout → (c.backend b).isReadingReply = true)
    (ha : ∀ chunk, e = .replyRead chunk →
      (c.backend b).received ++ chunk <+: encodeArray ((keysOf plan b).map (store (ep b))))
    (hu : ∀ chunk, e = .replyRead chunk → clean →
      Unbroken ((keysOf plan b).map (store (ep b))) ((c.backend b).received ++ chunk)) :
    Acted store clean plan ep none out writing first
      (handlers.onBackend b e ⟨buf, first, c, []⟩) := by
  by_cases hfatal : Fatal e
  · exact fatal_acted hfatal hb
  by_cases htime : e = .readTimeout
  · subst htime
    exact readTimeout_acted h hb (htimer rfl) hen.1
  have hset : e.settled = true := by
    cases e <;> first | rfl | exact absurd trivial hfatal | exact absurd rfl htime
  rw [Handlers.onBackend_eq (x := ⟨buf, first, c, []⟩) (k := c.backend b) setBackend_backend
    (if_pos hb) hset]
  cases e with
  | connected =>
    obtain ⟨at_, data, hq⟩ := hen
    simp only [BackendConn.handle, hq]
    exact connected_acted h hb hq
  | connectFailed =>
    obtain ⟨at_, data, hq⟩ := hen
    exact connectFailed_acted h hb (by simp [hq])
  | queryWritten =>
    obtain ⟨at_, data, hq⟩ := hen
    simp only [BackendConn.handle, hq]
    exact queryWritten_acted h hb hq
  | replyRead chunk =>
    obtain ⟨hread, hne, hc⟩ := hen
    exact replyRead_acted h hb hread hne hc (ha chunk rfl) (hu chunk rfl)
  | replyReadFailed =>
    exact readError_acted (k := ((c.backend b).handle .replyReadFailed).1) h hb hen
      (show ErrorCode.readReply ≠ .success by decide) rfl rfl rfl (fun hr => by cases hr)
      (fun _ hi => by cases hi)
  | readTimeout => exact absurd rfl htime
  | _ => exact absurd trivial hfatal

theorem startWriteReply_acted (h : Scheduled store clean plan ep none false out writing c) :
    Acted store clean plan ep none out writing true (startWriteReply ⟨buf, true, c, []⟩) := by
  obtain ⟨done, todo, S, F, h, _⟩ := h
  cases h.progress with
  | heading _ _ _ _ _ _ hf => cases hf
  | body _ _ _ _ hf => cases hf
  | idle hp hdone hidle hruns hout hw _ =>
    subst hout hw
    refine .wrote rfl rfl rfl rfl ⟨done, todo, S, F, ?_, fun _ hnil => ?_⟩
    · refine ⟨h.split, h.bound, h.endpoint, h.runs, h.later, h.link, fun b hb he => ?_,
        fun b hb he hr => .inl ?_, h.quiet, h.exempted,
        .heading hp hdone hidle hruns hp rfl rfl⟩
      · exact h.locked b hb he
      · exact (h.reading b hb he hr).resolve_right fun hf =>
          serializePrefix_ne_nil _ (hp.symm.trans hf.2.2.1)
    · exact absurd (hp.symm.trans hnil) (serializePrefix_ne_nil _)

def headed (s : MgetSubquery ε) : MgetSubquery ε :=
  { s with
    segments := ⟨none, []⟩ :: s.segments
    backend := s.backend.writeQuery none
      (serializePrefix (s.keyCount + 1) ++ ascii "$4\r\nmget\r\n") }

theorem foldl_writePrefix {bs : List ℕ} (hnd : bs.Nodup) : ∀ c : RedisMgetCommand ε,
    bs.foldl writePrefix c =
      { c with subquery := fun i => if i ∈ bs then headed (c.subquery i) else c.subquery i } := by
  induction bs with
  | nil =>
    intro c
    simp
  | cons b bs ih =>
    intro c
    obtain ⟨hb, hnd⟩ := List.nodup_cons.mp hnd
    rw [List.foldl_cons, ih hnd]
    have hsub : ∀ i, (c.writePrefix b).subquery i =
        if i = b then headed (c.subquery b) else c.subquery i :=
      fun i => Function.update_apply _ _ _ _
    change RedisMgetCommand.mk _ _ _ _ _ _ = RedisMgetCommand.mk _ _ _ _ _ _
    congr 1
    funext i
    rw [hsub]
    by_cases hib : i = b
    · subst hib
      simp [hb]
    · simp [hib]

theorem subQuery_eq (keys : List Bytes) : subQuery keys =
    serializePrefix (keys.length + 1) ++ ascii "$4\r\nmget\r\n" ++ encodeItems (keys.map some) := by
  rw [subQuery, encodeArray, List.map_cons, List.length_cons, List.length_map, encodeItems,
    List.flatMap_cons, List.append_assoc]
  rfl

/-- What the pool and the store have to be like: the buffers hold the nils for all the keys, and
the sizes of the values fit a `size_t`. -/
structure Suitable (pool : Pool) (store : ε → Bytes → Item) (n : ℕ) : Prop where
  accepted : ∀ k, AcceptedBufferSize (pool k).1.length
  room : ∀ k, ∀ m ≤ n, (errorReplyBody m).length ≤ (pool k).1.length
  values : ∀ ep key, itemSize (store ep key) < 2 ^ 62
  countable : n < 2 ^ 31

theorem Asked.link {pool : Pool} {keys : List Bytes} {s : MgetSubquery ε} {n : ℕ}
    (h : Asked pool keys b s) (hne : keys ≠ []) (hp : Suitable pool store n)
    (hn : keys.length ≤ n) :
    Link store clean [] keys [] [] (headed s) ∧ Locked false (headed s).backend := by
  obtain ⟨e, hbackend⟩ := h.backend
  obtain ⟨hlo, hhi⟩ := (hp.accepted b).bounds
  have hrelay : Relay [] 0 [] (ReadBuffer.new (pool b).1) :=
    ⟨ReadBuffer.new_valid hhi, by simp [ReadBuffer.new, ReadBuffer.queued], rfl⟩
  obtain ⟨op, opened, timer, hop, hhead⟩ : ∃ op opened timer,
      (op = .connecting none (serializePrefix (keys.length + 1) ++ ascii "$4\r\nmget\r\n") ∨
        op = .writing none (serializePrefix (keys.length + 1) ++ ascii "$4\r\nmget\r\n")) ∧
      headed s = { s with
        segments := ⟨none, []⟩ :: s.segments
        backend := { pool.allocate b e with
          query := some op, socketOpen := opened, writeTimerCanceled := timer } } := by
    rw [headed, hbackend, h.keyCount, BackendConn.writeQuery, if_neg (by simp [Pool.allocate,
      BackendConn.allocated])]
    split
    · exact ⟨_, _, _, .inr rfl, rfl⟩
    · exact ⟨_, _, _, .inl rfl, rfl⟩
  rw [hhead]
  refine ⟨⟨⟨hlo, hp.room b _ hn⟩, h.keyCount, ⟨?_, ?_, ?_⟩, .asking ⟨?_, rfl, rfl, ⟨rfl, rfl⟩, rfl⟩,
    ⟨ List.nil_prefix, fun hc => (by cases hc), .inl ⟨rfl, rfl, h.absent, hrelay⟩⟩, fun _ _ => ?_⟩,
      ⟨rfl, ?_⟩⟩
  · simpa using hne
  · intro it hit
    obtain ⟨key, -, rfl⟩ := List.mem_map.mp hit
    exact hp.values _ _
  · rw [List.length_map]
    exact Nat.lt_of_le_of_lt hn hp.countable
  · refine ⟨none, _, hop.imp (congrArg some) (congrArg some), ?_⟩
    change [] ++ _ ++ s.segments.flatMap Segment.bytes = subQuery keys
    rw [h.segments, subQuery_eq, List.nil_append]
  · intro j _ _ hnil
    exact serializePrefix_ne_nil _ (List.append_eq_nil_iff.mp hnil.symm).1
  · exact fun _ _ => Nat.zero_le _

theorem Planned.scheduled {locate : Bytes → ε} {pool : Pool} (h : Planned locate pool plan c)
    (hp : Suitable pool store plan.length) :
    Scheduled store clean plan (fun b => (c.backend b).remoteEndpoint) none false [] none
      ((List.range c.count).foldl writePrefix c) := by
  rw [foldl_writePrefix List.nodup_range]
  have hsub : ∀ b < c.count,
      (if b ∈ List.range c.count then headed (c.subquery b) else c.subquery b) =
        headed (c.subquery b) := fun b hb => if_pos (List.mem_range.mpr hb)
  have hlink : ∀ b < c.count, Link store clean [] (keysOf plan b) [] [] (headed (c.subquery b)) ∧
      Locked false (headed (c.subquery b)).backend := by
    intro b hb
    obtain ⟨ha, hne⟩ := h.asked b hb
    refine ha.link hne hp ?_
    rw [keysOf, List.length_map]
    exact List.length_filter_le _ _
  have hfresh : ∀ b < c.count, (headed (c.subquery b)).backend.isReadingReply = false ∧
      (headed (c.subquery b)).backend.noRecycle = false ∧
      (headed (c.subquery b)).backend.remoteEndpoint = (c.backend b).remoteEndpoint := by
    intro b hb
    obtain ⟨e, he⟩ := (h.asked b hb).1.backend
    obtain ⟨op, opened, timer, hk⟩ := (c.subquery b).backend.writeQuery_eq none
      (serializePrefix ((c.subquery b).keyCount + 1) ++ ascii "$4\r\nmget\r\n")
    rw [headed, hk, he]
    exact ⟨rfl, rfl, by rw [backend, he]⟩
  refine ⟨[], plan, fun _ => [], fun _ => [],
    ⟨rfl, fun e he => (h.owner e he).1, ?_, h.runs, ?_, ?_, ?_, ?_, ?_,
    fun _ hi => (by cases hi), .idle h.replyPrefix rfl ?_ h.positive rfl rfl rfl⟩, fun _ hnil => ?_⟩
  · intro b hb
    simp only [backend, hsub b hb]
    exact (hfresh b hb).2.2
  · exact fun r hr => h.positive r (List.mem_of_mem_tail hr)
  · intro b hb
    simp only [hsub b hb]
    exact (hlink b hb).1
  · intro b hb _
    simp only [backend, hsub b hb]
    exact (hlink b hb).2
  · exact fun _ _ _ _ => .inl rfl
  · intro b hb he
    simp only [backend, hsub b hb] at he
    cases (hfresh b hb).2.1.symm.trans he
  · rw [h.idle]
    rfl
  · exact absurd (h.replyPrefix.symm.trans hnil) (serializePrefix_ne_nil _)

theorem startWriteQuery_acted {locate : Bytes → ε} {pool : Pool} (h : Planned locate pool plan c)
    (hp : Suitable pool store plan.length) :
    Acted store clean plan (fun b => (c.backend b).remoteEndpoint) none [] none first
      (startWriteQuery ⟨buf, first, c, []⟩).1 := by
  cases first with
  | true => exact startWriteReply_acted (h.scheduled hp)
  | false => exact .quiet rfl (h.scheduled hp)

def endpoints (cmd : RedisMgetCommand ε) (b : ℕ) : ε := (cmd.backend b).remoteEndpoint

theorem Acted.sameKeys {cmd : RedisMgetCommand ε} {x : Ctx (RedisMgetCommand ε)}
    (h : Acted store clean plan ep none out writing first x) (hk : SameKeys cmd x.cmd) :
    Outcome handlers
      (fun o wr c => SameKeys cmd c ∧ Scheduled store clean plan ep none first o wr c)
      (fun o c => SameKeys cmd c ∧ Assembled store plan ep none o c) out writing first x :=
  h.map rfl id (fun _ _ hs => ⟨hk, hs⟩) (fun _ hr => ⟨hk, hr⟩)

theorem Scheduled.part_of_reply (h : Scheduled store clean plan ep none first out writing c) :
    out <+: encodeArray (plan.map (value store c)) := by
  obtain ⟨done, todo, S, F, hg, _⟩ := h
  rw [encodeArray, List.length_map]
  cases hg.progress with
  | idle _ _ _ _ hout => exact hout ▸ List.nil_prefix
  | heading _ _ _ _ hout => exact hout ▸ List.prefix_append _ _
  | body pending _ hr =>
    rw [← hg.split, List.map_append, encodeItems_append, ← List.append_assoc]
    refine List.IsPrefix.trans ⟨pending, ?_⟩ (List.prefix_append _ _)
    rw [hr.reply, hg.split]

section Run
variable [DecidableEq ε] {locate : Bytes → ε} {pool : Pool} {keys : List Bytes}
    {cmd : RedisMgetCommand ε}
  {P : World (RedisMgetCommand ε) → World.Event → Prop} {w : World (RedisMgetCommand ε)}

/-- The array with which a backend answers the keys located at its endpoint. -/
def arrayOf (store : ε → Bytes → Item) (locate : Bytes → ε) (keys : List Bytes) (ep : ε) :
    List Item :=
  (keys.filter fun key => locate key = ep).map (store ep)

def answers (store : ε → Bytes → Item) (locate : Bytes → ε) (keys : List Bytes) :
    World.Answers (RedisMgetCommand ε) :=
  fun c b bytes => bytes <+: encodeArray (arrayOf store locate keys (c.backend b).remoteEndpoint)

/-- A read timer fires while its read is outstanding. -/
def ReadTimers (w : World (RedisMgetCommand ε)) : World.Event → Prop
  | .backend _ b .readTimeout => (w.cmd.backend b).isReadingReply = true
  | _ => True

instance (w : World (RedisMgetCommand ε)) : ∀ e, Decidable (ReadTimers w e)
  | .backend _ b .readTimeout =>
    inferInstanceAs (Decidable ((w.cmd.backend b).isReadingReply = true))
  | .backend _ _ .connected | .backend _ _ .connectFailed | .backend _ _ .queryWritten
  | .backend _ _ .queryWriteFailed | .backend _ _ .queryRefused | .backend _ _ (.replyRead _)
  | .backend _ _ .replyReadFailed | .backend _ _ .connectTimeout | .backend _ _ .writeTimeout
  | .start _ | .parse _ | .continue_ _ | .process _ | .becomeFirst _ | .writeDone _
  | .writeFailed _ => .isTrue trivial

instance (its : List Item) (source : Bytes) : Decidable (Unbroken its source) :=
  decidable_of_iff (∀ j < its.length, 0 < j →
      source ≠ serializePrefix its.length ++ encodeItems (its.take j))
    ⟨fun h j hpos hj => h j hj hpos, fun h j hj hpos => h j hpos hj⟩

/-- Moreover, no read ends between two bulks of its array. -/
def EndsInside (store : ε → Bytes → Item) (locate : Bytes → ε) (keys : List Bytes)
    (w : World (RedisMgetCommand ε)) (e : World.Event) : Prop :=
  ReadTimers w e ∧ ∀ r ∈ e.replyRead?,
    Unbroken (arrayOf store locate keys (w.cmd.backend r.1).remoteEndpoint)
      ((w.cmd.backend r.1).received ++ r.2)

instance (store : ε → Bytes → Item) (locate : Bytes → ε) (keys : List Bytes)
    (c : RedisMgetCommand ε)
    (b : ℕ) (bytes : Bytes) : Decidable (answers store locate keys c b bytes) :=
  inferInstanceAs (Decidable (_ <+: _))

instance (store : ε → Bytes → Item) (locate : Bytes → ε) (keys : List Bytes)
    (w : World (RedisMgetCommand ε)) (e : World.Event) :
    Decidable (EndsInside store locate keys w e) :=
  inferInstanceAs (Decidable (_ ∧ _))

theorem handlers_keep (h : Planned locate pool plan cmd) (hp : Suitable pool store plan.length)
    (htimers : ∀ w e, P w e → ReadTimers w e)
    (hclean : clean → ∀ w e, P w e → EndsInside store locate (plan.map Prod.snd) w e) :
    Keeps handlers (answers store locate (plan.map Prod.snd)) P cmd
      (fun o wr f c => SameKeys cmd c ∧ Scheduled store clean plan cmd.endpoints none f o wr c)
      (fun o c => SameKeys cmd c ∧ Assembled store plan cmd.endpoints none o c) where
  start := by
    rintro w buf - rfl
    exact Acted.sameKeys (startWriteQuery_acted h hp) (startWriteQuery_sameKeys (.refl _))
  parse := by rintro w buf - ⟨⟩
  continue_ := by rintro w buf - ⟨⟩
  process := by rintro w buf - ⟨⟩
  becomeFirst w buf _ hs := Acted.sameKeys (startWriteReply_acted hs.2) hs.1
  backend := by
    rintro w buf b e k hP ⟨hsame, hs⟩ hk hen hans
    obtain ⟨hb, rfl⟩ : b < w.cmd.count ∧ w.cmd.backend b = k := by
      simp only [handlers] at hk
      split at hk
      next hb => exact ⟨hb, Option.some.inj hk⟩
      next => cases hk
    have hep : (w.cmd.backend b).remoteEndpoint = cmd.endpoints b := by
      obtain ⟨_, _, _, _, hg, _⟩ := hs
      exact hg.endpoint b hb
    have harray : (keysOf plan b).map (store (cmd.endpoints b)) =
        arrayOf store locate (plan.map Prod.snd) (cmd.endpoints b) := by
      rw [h.keysOf_eq (hsame.count ▸ hb), arrayOf]
      rfl
    refine Acted.sameKeys (onBackend_acted hs hb hen ?_ ?_ ?_) (onBackend_sameKeys hsame)
    · rintro rfl
      exact htimers _ _ hP
    · intro chunk hchunk
      have ha := hans chunk hchunk
      rw [answers, hep] at ha
      rwa [harray]
    · rintro chunk rfl hc
      have hu := (hclean hc _ _ hP).2 (b, chunk) rfl
      rw [hep] at hu
      rwa [harray]
  writeDone := by
    rintro w buf (_ | r) - ⟨hsame, hs⟩
    · exact Acted.sameKeys (writtenHeader_acted hs) (onWriteReplyFinished_sameKeys hsame)
    · exact Acted.sameKeys (writtenBulks_acted hs) (onWriteReplyFinished_sameKeys hsame)
  writeFailed := by
    rintro w buf (_ | b) - hs
    · exact .stopped rfl (.inl rfl)
    · exact .stopped rfl (.inl rfl)

/-- What the client is told of `key`: nil if the backend it is located at has failed. -/
def told (store : ε → Bytes → Item) (locate : Bytes → ε) (failed : ε → Bool) (key : Bytes) : Item :=
  if failed (locate key) then none else store (locate key) key

/-- The backend at `ep` has been given up. -/
def failedAt (c : RedisMgetCommand ε) (ep : ε) : Bool :=
  (List.range c.count).any fun b => decide ((c.backend b).remoteEndpoint = ep) &&
    (c.backend b).noRecycle

theorem Planned.values (h : Planned locate pool plan cmd) (hsame : SameKeys cmd c)
    (hep : ∀ b < c.count, (c.backend b).remoteEndpoint = cmd.endpoints b) :
    plan.map (value store c) = (plan.map Prod.snd).map (told store locate (failedAt c)) := by
  rw [List.map_map]
  refine List.map_congr_left fun e he => ?_
  obtain ⟨hlt, howner⟩ := h.owner e he
  have hlt' : e.1 < c.count := hsame.count.symm ▸ hlt
  have hfailed : failedAt c (locate e.2) = (c.backend e.1).noRecycle := by
    rw [Bool.eq_iff_iff, failedAt, List.any_eq_true]
    constructor
    · rintro ⟨i, hi, hmatch⟩
      rw [List.mem_range] at hi
      obtain ⟨hiep, hi'⟩ := Bool.and_eq_true_iff.mp hmatch
      rw [decide_eq_true_eq, hep i hi] at hiep
      obtain rfl := h.distinct i (hsame.count ▸ hi) e.1 hlt (hiep.trans howner.symm)
      exact hi'
    · intro hn
      refine ⟨e.1, List.mem_range.mpr hlt', ?_⟩
      rw [hn, Bool.and_true, decide_eq_true_eq, hep e.1 hlt']
      exact howner
  rw [value, answer, BackendConn.error, hep e.1 hlt', Function.comp_apply, told, hfailed]
  change (if _ then _ else store (cmd.backend e.1).remoteEndpoint e.2) = _
  rw [howner]

theorem reachable_tracks {first : Bool} (h : Planned locate pool plan cmd)
    (hp : Suitable pool store plan.length) (htimers : ∀ w e, P w e → ReadTimers w e)
    (hclean : clean → ∀ w e, P w e → EndsInside store locate (plan.map Prod.snd) w e)
    (hw : Transition.Execution (World.system handlers (answers store locate (plan.map Prod.snd))) P
      (World.init cmd first) w) :
    Tracks cmd
      (fun o => ∃ failed, o <+: encodeArray ((plan.map Prod.snd).map (told store locate failed)))
      (fun o wr f c => (SameKeys cmd c ∧ Scheduled store clean plan cmd.endpoints none f o wr c))
      (fun o c => SameKeys cmd c ∧ Assembled store plan cmd.endpoints none o c) w := by
  refine (handlers_keep h hp htimers hclean).reachable ⟨fun _ => false, List.nil_prefix⟩ ?_ hw
  rintro o wr f c ⟨hsame, hs⟩
  refine ⟨failedAt c, ?_⟩
  rw [← h.values hsame (by obtain ⟨_, _, _, _, hg, _⟩ := hs; exact hg.endpoint)]
  exact hs.part_of_reply

/-- A complete `MGET` of `keys`, each of which has an endpoint, with backend buffers of the size of
the client's and values whose sizes fit a `size_t`. -/
structure Setting [Inhabited ε] (bufferSize : ℕ) (verb : Bytes) (keys : List Bytes) (buf : Ptr)
    (size : ℕ) (locate : Bytes → ε) (pool : Pool) (store : ε → Bytes → Item) : Prop where
  request : CompleteRequest bufferSize ((verb :: keys).map some) buf size
  mget : redisCommandTypeOf verb = .mget
  located : ∀ key ∈ keys, locate key ≠ default
  buffers : ∀ k, (pool k).1.length = bufferSize
  values : ∀ ep key, itemSize (store ep key) < 2 ^ 62

/-- `c` is the command that is made of the request. -/
def Made [Inhabited ε] (bufferSize : ℕ) (buf : Ptr) (size : ℕ) (locate : Bytes → ε) (pool : Pool)
    (buffer : ReadBuffer) (c : RedisMgetCommand ε) : Prop :=
  ∃ n ba buffer', createCommand bufferSize buf size = some (n, some (.redisMget ba)) ∧
    new locate pool buffer ba = some (buffer', c)

variable [Inhabited ε] {bufferSize size : ℕ} {verb : Bytes} {buf : Ptr}

theorem Setting.made (h : Setting bufferSize verb keys buf size locate pool store)
    (buffer : ReadBuffer) :
    ∃ plan c, Made bufferSize buf size locate pool buffer c ∧ plan.map Prod.snd = keys ∧
      Planned locate pool plan c ∧ Suitable pool store plan.length := by
  obtain ⟨ba, hcreate, hba, hitems⟩ := h.request.mget h.mget
  obtain ⟨plan, buffer', c, hnew, hplan, hplanned⟩ :=
    new_planned pool buffer hba h.request.small hitems h.request.holdsItems h.located
  have hlen : plan.length = keys.length := by rw [← hplan, List.length_map]
  refine ⟨plan, c, ⟨_, ba, buffer', hcreate, hnew⟩, hplan, hplanned, ?_⟩
  refine ⟨fun k => ?_, fun k m hm => ?_, h.values, ?_⟩
  · rw [h.buffers]
    exact h.request.accepted
  · have hbody : (errorReplyBody m).length ≤ (encodeStrings (verb :: keys)).length :=
      errorReplyBody_le (hlen ▸ hm)
    have hle := h.request.length_le
    have hfits := h.request.fits
    rw [encodeStrings] at hbody
    rw [h.buffers]
    omega
  · have := length_lt_of_small h.request.small
    rw [List.length_map, List.length_cons] at this
    omega

/-- An `MGET` is answered in the order of the request: what has been written is a part of the
array of its values, with nils for the keys of the backends that failed, by one write at a time;
a command that is rotated out has written all of it. -/
theorem values_in_request_order (h : Setting bufferSize verb keys buf size locate pool store)
    (buffer : ReadBuffer) (first : Bool) :
    ∃ c, Made bufferSize buf size locate pool buffer c ∧
      ∀ w, Transition.Execution (World.system handlers (answers store locate keys)) ReadTimers
          (World.init c first) w →
        (∃ failed, w.out <+: encodeArray (keys.map (told store locate failed))) ∧
        (w.live → w.out <+: encodeArray (keys.map (told store locate (failedAt w.cmd)))) ∧
        (w.rotated = true → w.writing = none ∧
          w.out = encodeArray (keys.map (told store locate (failedAt w.cmd)))) ∧
        ∀ call ∈ w.calls, call.first = true ∧ call.overlapping = false := by
  obtain ⟨plan, c, hmade, rfl, hplanned, hsuit⟩ := h.made buffer
  refine ⟨c, hmade, fun w hw => ?_⟩
  have ht := reachable_tracks hplanned hsuit (fun _ _ hP => hP) False.elim hw
  refine ⟨ht.bytes, fun hl => ?_, fun hr => ?_,
    fun call hc => ⟨(ht.calls call hc).1, (ht.calls call hc).2.1⟩⟩
  · cases hst : w.started with
    | false =>
      have : w.out = [] := by rw [World.out, (ht.fresh hst).2.2, List.flatMap_nil]
      rw [this]
      exact List.nil_prefix
    | true =>
      obtain ⟨hsame, hs⟩ := ht.state hl hst
      rw [← hplanned.values hsame (by obtain ⟨_, _, _, _, hg, _⟩ := hs; exact hg.endpoint)]
      exact hs.part_of_reply
  · obtain ⟨hwr, hsame, ha⟩ := ht.whole hr
    refine ⟨hwr, ?_⟩
    rw [← hplanned.values hsame ha.endpoint, encodeArray, List.length_map]
    exact ha.reply

/-- As long as no read ends between two bulks, the reply does not stall: when the client has
taken all it was given, the backend whose turn it is has its query or a read outstanding. -/
theorem front_backend_busy (h : Setting bufferSize verb keys buf size locate pool store)
    (buffer : ReadBuffer) (first : Bool) :
    ∃ c, Made bufferSize buf size locate pool buffer c ∧
      ∀ w, Transition.Execution (World.system handlers (answers store locate keys))
          (EndsInside store locate keys) (World.init c first) w →
        w.live → w.started = true → w.cmd.replyPrefix = [] → w.writing = none →
        ∀ f n queue, w.cmd.waitingReplyQueue = (f, n) :: queue →
          (w.cmd.backend f).query ≠ none ∨ (w.cmd.backend f).isReadingReply = true := by
  obtain ⟨plan, c, hmade, rfl, hplanned, hsuit⟩ := h.made buffer
  refine ⟨c, hmade, fun w hw hl hst hheader hwriting f n queue hq => ?_⟩
  have hends : True → ∀ (w : World (RedisMgetCommand ε)) e,
      EndsInside store locate (plan.map Prod.snd) w e →
      EndsInside store locate (plan.map Prod.snd) w e := fun _ _ _ hP => hP
  have ht := reachable_tracks hplanned hsuit (fun _ _ hP => hP.1) hends hw
  obtain ⟨_, _, _, _, _, _, hbusy⟩ := ht.state hl hst
  exact (hbusy trivial hheader hwriting f (by simp [front, hq])).imp id And.right

/-- Each backend of the command is at an endpoint of its own, there is one for every key, and it is
asked for the keys located there and nothing else, before anything is read from it. -/
theorem keys_asked_once (h : Setting bufferSize verb keys buf size locate pool store)
    (buffer : ReadBuffer) (first : Bool) :
    ∃ c, Made bufferSize buf size locate pool buffer c ∧
      ∀ w, Transition.Execution (World.system handlers (answers store locate keys)) ReadTimers
          (World.init c first) w →
        w.live → w.started = true →
        (∀ key ∈ keys, ∃ b < w.cmd.count, (w.cmd.backend b).remoteEndpoint = locate key) ∧
        ∀ b < w.cmd.count,
          (∀ i < w.cmd.count, (w.cmd.backend i).remoteEndpoint = (w.cmd.backend b).remoteEndpoint →
            i = b) ∧
          ((w.cmd.backend b).noRecycle = false →
            (w.cmd.backend b).sent <+: encodeStrings (ascii "mget" ::
              keys.filter fun key => locate key = (w.cmd.backend b).remoteEndpoint) ∧
            ((w.cmd.backend b).isReadingReply = true ∨ (w.cmd.backend b).received ≠ [] →
              (w.cmd.backend b).sent = encodeStrings (ascii "mget" ::
                keys.filter fun key => locate key = (w.cmd.backend b).remoteEndpoint))) := by
  obtain ⟨plan, c, hmade, rfl, hplanned, hsuit⟩ := h.made buffer
  refine ⟨c, hmade, fun w hw hl hst => ?_⟩
  have ht := reachable_tracks hplanned hsuit (fun _ _ hP => hP) False.elim hw
  obtain ⟨hsame, done, todo, S, F, hg, -⟩ := ht.state hl hst
  refine ⟨fun key hkey => ?_, fun b hb => ⟨fun i hi heq => ?_, fun he => ?_⟩⟩
  · obtain ⟨e, he, rfl⟩ := List.mem_map.mp hkey
    obtain ⟨hlt, howner⟩ := hplanned.owner e he
    have hlt' : e.1 < w.cmd.count := hsame.count.symm ▸ hlt
    exact ⟨e.1, hlt', (hg.endpoint e.1 hlt').trans howner⟩
  · rw [hg.endpoint i hi, hg.endpoint b hb] at heq
    exact hplanned.distinct i (hsame.count ▸ hi) b (hsame.count ▸ hb) heq
  · have hkeys : keysOf done b ++ keysOf todo b = (plan.map Prod.snd).filter
        fun key => locate key = (w.cmd.backend b).remoteEndpoint := by
      rw [← keysOf_append, hg.split, hplanned.keysOf_eq (hsame.count ▸ hb), hg.endpoint b hb]
      rfl
    rw [← hkeys]
    cases (hg.link b hb).phase with
    | asking ha =>
      obtain ⟨at_, data, -, hsent⟩ := ha.query
      refine ⟨⟨data ++ (w.cmd.subquery b).segments.tail.flatMap Segment.bytes, ?_⟩, ?_⟩
      · rw [← List.append_assoc]
        exact hsent
      · rintro (hr | hr)
        · cases ha.reading.symm.trans hr
        · exact absurd ha.silent.2 hr
    | serving hs => exact ⟨⟨[], (List.append_nil _).trans hs.sent⟩, fun _ => hs.sent⟩
    | failed hf => cases hf.error.symm.trans he

end Run

def threeKeys : List Bytes := [ascii "b", ascii "a", ascii "b"]

def threeRequest : Ptr := ⟨encodeStrings (ascii "mget" :: threeKeys), 0⟩

/-- Key `b` is located at endpoint 2, any other at endpoint 1. -/
def threeLocate (key : Bytes) : ℕ := if key = ascii "b" then 2 else 1

def threeStore (_ : ℕ) (_ : Bytes) : Item := some (ascii "yy")

def threePool : Pool := fun k => (List.replicate 1024 0, k == 0)

theorem threeSetting : Setting 1024 (ascii "mget") threeKeys threeRequest 35 threeLocate threePool
    threeStore := by
  refine ⟨⟨⟨0, by decide, rfl⟩, by decide, by decide, by decide, by decide⟩, by decide, ?_, ?_, ?_⟩
  · intro key _
    unfold threeLocate
    split
    · decide
    · decide
  · exact fun _ => List.length_replicate
  · exact fun _ _ => show itemSize (some (ascii "yy")) < 2 ^ 62 by decide

def threeArray : BulkArray :=
  ⟨threeRequest, 35, [⟨⟨threeRequest.mem, 4⟩, 10⟩, ⟨⟨threeRequest.mem, 14⟩, 7⟩,
    ⟨⟨threeRequest.mem, 21⟩, 7⟩, ⟨⟨threeRequest.mem, 28⟩, 7⟩]⟩

def threeNew : Option (ReadBuffer × RedisMgetCommand ℕ) :=
  new threeLocate threePool (.new []) threeArray

theorem threeNew_isSome : threeNew.isSome = true := by decide +kernel

def threeMget : RedisMgetCommand ℕ := (threeNew.get threeNew_isSome).2

theorem threeMget_made {c : RedisMgetCommand ℕ}
    (h : Made 1024 threeRequest 35 threeLocate threePool (.new []) c) : c = threeMget := by
  obtain ⟨n, ba, buffer', hcreate, hnew⟩ := h
  have hthree : createCommand 1024 threeRequest 35 = some (35, some (.redisMget threeArray)) := by
    decide +kernel
  cases hthree.symm.trans hcreate
  have hsome : threeNew = some ((threeNew.get threeNew_isSome).1, threeMget) :=
    (Option.some_get threeNew_isSome).symm
  exact (Prod.mk.inj (Option.some.inj (hnew.symm.trans hsome))).2

/-- The queries are sent, the second backend fails, and half of a value arrives. -/
def threeHalf : List World.Event :=
  let buf := ReadBuffer.new []
  [.start buf, .backend buf 0 .queryWritten, .backend buf 0 .queryWritten,
    .backend buf 0 .queryWritten, .backend buf 1 .connectFailed, .writeDone buf,
    .backend buf 0 (.replyRead (ascii "*2\r\n$2\r\ny")), .writeDone buf]

def threeRest : List World.Event :=
  let buf := ReadBuffer.new []
  [.backend buf 0 (.replyRead (ascii "y\r\n$2\r\nyy\r\n")), .writeDone buf, .writeDone buf,
    .writeDone buf]

def threeWorld : World (RedisMgetCommand ℕ) :=
  Transition.runTrace (World.system handlers (answers threeStore threeLocate threeKeys))
    (World.init threeMget true) threeHalf

theorem threeWorld_run : Transition.Execution
    (World.system handlers (answers threeStore threeLocate threeKeys))
    (EndsInside threeStore threeLocate threeKeys) (World.init threeMget true) threeWorld :=
  Transition.ValidTrace.execution .refl (by decide +kernel)

theorem threeWorld_live : threeWorld.live ∧ threeWorld.started = true := by decide +kernel

theorem threeKeys_in_order : ∃ w, Transition.Execution
    (World.system handlers (answers threeStore threeLocate threeKeys)) ReadTimers
      (World.init threeMget true) w ∧
    w.rotated = true ∧ w.writing = none ∧
      w.out = ascii "*3\r\n$2\r\nyy\r\n$-1\r\n$2\r\nyy\r\n" := by
  obtain ⟨c, hmade, hrun⟩ := values_in_request_order threeSetting (.new []) true
  obtain rfl := threeMget_made hmade
  have hvalid : Transition.ValidTrace
      (World.system handlers (answers threeStore threeLocate threeKeys)) ReadTimers
      (World.init threeMget true) (threeHalf ++ threeRest) := by
    decide +kernel
  have hrot :
      (Transition.runTrace (World.system handlers (answers threeStore threeLocate threeKeys))
      (World.init threeMget true) (threeHalf ++ threeRest)).rotated = true := by
    decide +kernel
  obtain ⟨-, -, hwhole, -⟩ := hrun _ (hvalid.execution .refl)
  refine ⟨_, hvalid.execution .refl, hrot, (hwhole hrot).1, ?_⟩
  rw [(hwhole hrot).2]
  decide +kernel

theorem threeKeys_busy : Transition.Execution
    (World.system handlers (answers threeStore threeLocate threeKeys))
    (EndsInside threeStore threeLocate threeKeys) (World.init threeMget true) threeWorld ∧
    threeWorld.cmd.waitingReplyQueue = [(0, 0), (1, 1), (0, 1)] ∧
    ((threeWorld.cmd.backend 0).query ≠ none ∨ (threeWorld.cmd.backend 0).isReadingReply =
      true) := by
  obtain ⟨c, hmade, hrun⟩ := front_backend_busy threeSetting (.new []) true
  obtain rfl := threeMget_made hmade
  have hqueue : threeWorld.cmd.waitingReplyQueue = [(0, 0), (1, 1), (0, 1)] := by decide +kernel
  have hheader : threeWorld.cmd.replyPrefix = [] := by decide +kernel
  have hidle : threeWorld.writing = none := by decide +kernel
  exact ⟨threeWorld_run, hqueue,
    hrun _ threeWorld_run threeWorld_live.1 threeWorld_live.2 hheader hidle
    0 0 _ hqueue⟩

theorem threeKeys_asked : Transition.Execution
    (World.system handlers (answers threeStore threeLocate threeKeys)) ReadTimers
      (World.init threeMget true) threeWorld ∧
    (threeWorld.cmd.backend 0).sent = ascii "*3\r\n$4\r\nmget\r\n$1\r\nb\r\n$1\r\nb\r\n" := by
  obtain ⟨c, hmade, hrun⟩ := keys_asked_once threeSetting (.new []) true
  obtain rfl := threeMget_made hmade
  have hw : Transition.Execution (World.system handlers (answers threeStore threeLocate threeKeys))
      ReadTimers (World.init threeMget true) threeWorld :=
    threeWorld_run.mono fun _ _ hP => hP.1
  have hcount : 0 < threeWorld.cmd.count := by decide +kernel
  have herror : (threeWorld.cmd.backend 0).noRecycle = false := by decide +kernel
  have hread : (threeWorld.cmd.backend 0).isReadingReply = true := by decide +kernel
  have hsent := (((hrun _ hw threeWorld_live.1 threeWorld_live.2).2 0 hcount).2 herror).2
    (.inl hread)
  refine ⟨hw, hsent.trans ?_⟩
  decide +kernel

end RedisMgetCommand
end Yarmproxy

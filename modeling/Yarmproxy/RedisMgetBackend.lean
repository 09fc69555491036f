import Yarmproxy.RedisMgetReply

/-! # One backend of a Redis `MGET`

A backend is asked for its keys, serves their values, or has failed and stands for nils.
`got` are the keys whose bulks have been taken from its reply and `due` those to come. -/
namespace Yarmproxy
namespace RedisMgetCommand

/-- The query that asks a backend for `keys`. -/
def subQuery (keys : List Bytes) : Bytes := encodeArray ((ascii "mget" :: keys).map some)

variable {ε : Type}

/-- What a backend contributes for `key`: what it stores, or nil once it has failed. -/
def answer (store : ε → Bytes → Item) (k : BackendConn ε) (key : Bytes) : Item :=
  if k.error then none else store k.remoteEndpoint key

variable {store : ε → Bytes → Item} {clean : Prop} {keys got due : List Bytes}
  {source forwarded chunk : Bytes} {writing : Bool} {s : MgetSubquery ε} {k : BackendConn ε}

theorem errorReplyBody_eq (n : ℕ) : errorReplyBody n = encodeArray (List.replicate n none) := by
  rw [errorReplyBody, encodeArray, serializePrefix, encodeItems, List.length_replicate,
    List.flatMap_replicate]
  rfl

/-- The query is being written: what is in flight and the segments behind it complete it. -/
structure Asking (keys : List Bytes) (source : Bytes) (s : MgetSubquery ε) : Prop where
  query : ∃ at_ data, (s.backend.query = some (.connecting at_ data) ∨
      s.backend.query = some (.writing at_ data)) ∧
    s.backend.sent ++ data ++ s.segments.tail.flatMap Segment.bytes = subQuery keys
  connection : s.backend.aborted = false
  noError : s.backend.noRecycle = false
  silent : source = [] ∧ s.backend.received = []
  reading : s.backend.isReadingReply = false

/-- The query has been sent, and the first part of the reply is read. -/
structure Serving (keys : List Bytes) (source : Bytes) (s : MgetSubquery ε) : Prop where
  query : s.backend.query = none
  sent : s.backend.sent = subQuery keys
  noError : s.backend.noRecycle = false
  received : s.backend.received = source
  listening : source = [] → s.backend.isReadingReply = true

/-- The backend is given up; its reply is made up of nils. -/
structure Failed (keys : List Bytes) (source : Bytes) (s : MgetSubquery ε) : Prop where
  query : s.backend.query = none
  error : s.backend.noRecycle = true
  body : source = errorReplyBody keys.length

inductive Phase (keys : List Bytes) (source : Bytes) (s : MgetSubquery ε) : Prop where
  | asking : Asking keys source s → Phase keys source s
  | serving : Serving keys source s → Phase keys source s
  | failed : Failed keys source s → Phase keys source s

/-- No read has ended between two bulks of the array. -/
def Unbroken (its : List Item) (source : Bytes) : Prop :=
  ∀ j, 0 < j → j < its.length → source ≠ serializePrefix its.length ++ encodeItems (its.take j)

structure Link (store : ε → Bytes → Item) (clean : Prop) (got due : List Bytes)
    (source forwarded : Bytes) (s : MgetSubquery ε) : Prop where
  room : 1024 ≤ s.backend.buffer.bufferSize ∧
    (errorReplyBody (got ++ due).length).length ≤ s.backend.buffer.bufferSize
  keyCount : s.keyCount = (got ++ due).length
  countable : Countable ((got ++ due).map (answer store s.backend))
  phase : Phase (got ++ due) source s
  stream : Stream (got.map (answer store s.backend)) (due.map (answer store s.backend))
    source forwarded s
  unbroken : clean → s.backend.noRecycle = false →
    Unbroken ((got ++ due).map (answer store s.backend)) source

/-- The recycle lock counts the read and the client write that are outstanding. -/
structure Locked (writing : Bool) (k : BackendConn ε) : Prop where
  locks : k.buffer.recycleLockCount =
    (if k.isReadingReply then 1 else 0) + if writing then 1 else 0
  compact : k.isReadingReply = false → writing = false → k.buffer.Compact

theorem Stream.of_silent {taken left : List Item} (h : Stream taken left [] forwarded s) :
    taken = [] ∧ forwarded = [] ∧ s.replyAbsentBulks = 0 ∧ Relay [] 0 [] s.backend.buffer := by
  rcases h.parsed with h | ⟨_, _, hr⟩
  · exact h
  · have hb := hr.bytes
    have := four_le_serializePrefix (taken ++ left).length
    rw [List.append_eq_nil_iff, List.append_eq_nil_iff] at hb
    rw [hb.1.1] at this
    simp at this

theorem Stream.relay {taken left : List Item} (h : Stream taken left source forwarded s) :
    ∃ position handed, Relay source position handed s.backend.buffer := by
  rcases h.parsed with ⟨_, _, _, hr⟩ | ⟨_, _, hr⟩
  · exact ⟨_, _, hr⟩
  · exact ⟨_, _, hr⟩

theorem Stream.valid {taken left : List Item} (h : Stream taken left source forwarded s) :
    s.backend.buffer.Valid := by
  obtain ⟨_, _, hr⟩ := h.relay
  exact hr.valid

theorem Stream.whole {taken left : List Item} (h : Stream taken left source forwarded s)
    (hun : 0 < s.backend.buffer.unprocessedBytes) (hp : s.backend.buffer.parsedUnreceivedBytes = 0)
    (ha : s.replyAbsentBulks = 0) : source = encodeArray (taken ++ left) := by
  rcases h.parsed with ⟨_, _, _, hr⟩ | ⟨_, habsent, hr⟩
  · rw [hr.unprocessedBytes] at hun
    omega
  · obtain rfl := List.length_eq_zero_iff.mp (habsent.symm.trans ha)
    refine h.answer.eq_of_length_le ?_
    rw [hr.parsedUnreceivedBytes] at hp
    rw [length_encodeArray_append]
    simp only [encodeItems, List.flatMap_nil, List.length_nil] at hp ⊢
    omega

theorem Failed.whole (store : ε → Bytes → Item) (hf : Failed (got ++ due) source s) :
    source =
      encodeArray (got.map (answer store s.backend) ++ due.map (answer store s.backend)) := by
  have hconst : answer store s.backend = fun _ => none := by
    funext key
    rw [answer, BackendConn.error, if_pos hf.error]
  rw [hf.body, ← List.map_append, hconst, List.map_const', errorReplyBody_eq]

namespace Link

theorem asking (h : Link store clean got due source forwarded s) (hq : s.backend.query ≠ none) :
    Asking (got ++ due) source s := by
  cases h.phase with
  | asking ha => exact ha
  | serving hs => exact absurd hs.query hq
  | failed hf => exact absurd hf.query hq

theorem serving (h : Link store clean got due source forwarded s)
    (he : s.backend.noRecycle = false) (hr : s.backend.isReadingReply = true) :
    Serving (got ++ due) source s := by
  cases h.phase with
  | asking ha => simp [ha.reading] at hr
  | serving hs => exact hs
  | failed hf => simp [hf.error] at he

theorem ask (h : Link store clean got due source forwarded s)
    {op : QueryOp} {sent : Bytes} {opened timer : Bool} {segments : List Segment}
    (ha : Asking (got ++ due) source { s with
      backend := { s.backend with
        query := some op, sent := sent, socketOpen := opened, writeTimerCanceled := timer }
      segments := segments }) :
    Link store clean got due source forwarded { s with
      backend := { s.backend with
        query := some op, sent := sent, socketOpen := opened, writeTimerCanceled := timer }
      segments := segments } :=
  ⟨h.room, h.keyCount, h.countable, .asking ha,
    ⟨h.stream.answer, h.stream.complete, h.stream.parsed⟩, h.unbroken⟩

theorem connected (h : Link store clean got due source forwarded s) {at_ : Option ℕ} {data : Bytes}
    (hq : s.backend.query = some (.connecting at_ data)) :
    Link store clean got due source forwarded { s with
      backend := { s.backend with writeTimerCanceled := false, query := some (.writing at_ data) }
        } := by
  have ha := h.asking (by simp [hq])
  obtain ⟨at', data', hquery, hrest⟩ := ha.query
  obtain ⟨rfl, rfl⟩ : at_ = at' ∧ data = data' := by simpa [hq] using hquery
  exact h.ask ⟨⟨at_, data, .inr rfl, hrest⟩, ha.connection, ha.noError, ha.silent, ha.reading⟩

theorem writeNext (h : Link store clean got due source forwarded s) {at_ : Option ℕ} {data : Bytes}
    (hq : s.backend.query = some (.writing at_ data)) {segment : Segment} {segments : List Segment}
    (hs : s.segments.tail = segment :: segments) (timer : Bool) :
    Link store clean got due source forwarded { s with
      segments := segment :: segments
      backend := BackendConn.writeQuery { s.backend with
        writeTimerCanceled := timer, query := none, sent := s.backend.sent ++ data }
        segment.at_ segment.bytes } := by
  have ha := h.asking (by simp [hq])
  obtain ⟨at', data', hquery, hrest⟩ := ha.query
  obtain ⟨rfl, rfl⟩ : at_ = at' ∧ data = data' := by simpa [hq] using hquery
  have hsent : s.backend.sent ++ data ++ segment.bytes ++
      (segment :: segments).tail.flatMap Segment.bytes = subQuery (got ++ due) := by
    rw [← hrest, hs]
    simp
  rw [BackendConn.writeQuery, if_neg (by simp [ha.connection])]
  split
  · exact h.ask ⟨⟨_, _, .inr rfl, hsent⟩, ha.connection, ha.noError, ha.silent, ha.reading⟩
  · exact h.ask ⟨⟨_, _, .inl rfl, hsent⟩, ha.connection, ha.noError, ha.silent, ha.reading⟩

theorem readFirst (h : Link store clean got due source forwarded s) {at_ : Option ℕ} {data : Bytes}
    (hq : s.backend.query = some (.writing at_ data)) (hs : s.segments.tail = []) (timer : Bool) :
    Link store clean got due source forwarded { s with
      segments := []
      backend := BackendConn.readReply { s.backend with
        writeTimerCanceled := timer, query := none, sent := s.backend.sent ++ data } } := by
  have ha := h.asking (by simp [hq])
  obtain ⟨at', data', hquery, hrest⟩ := ha.query
  obtain ⟨rfl, rfl⟩ : at_ = at' ∧ data = data' := by simpa [hq] using hquery
  rw [hs, List.flatMap_nil, List.append_nil] at hrest
  refine ⟨h.room, h.keyCount, h.countable, .serving ⟨rfl, hrest, ha.noError, ?_, fun _ => rfl⟩, ?_,
    h.unbroken⟩
  · exact ha.silent.2.trans ha.silent.1.symm
  · refine ⟨h.stream.answer, h.stream.complete, ?_⟩
    exact h.stream.parsed.imp (fun ⟨h₁, h₂, h₃, hr⟩ => ⟨h₁, h₂, h₃, hr.incRecycleLock⟩)
      (fun ⟨h₁, h₂, hr⟩ => ⟨h₁, h₂, hr.incRecycleLock⟩)

theorem of_silent (h : Link store clean got due [] forwarded s) :
    got = [] ∧ forwarded = [] ∧ s.replyAbsentBulks = 0 := by
  obtain ⟨hg, hf, ha, _⟩ := h.stream.of_silent
  exact ⟨List.map_eq_nil_iff.mp hg, hf, ha⟩

theorem fail (h : Link store clean got due [] forwarded s) (hv : k.buffer.Valid)
    (hsize : k.buffer.bufferSize = s.backend.buffer.bufferSize) (hq : k.query = none) :
    Link store clean [] due (errorReplyBody s.keyCount) [] { s with
      backend := (k.setReplyData (errorReplyBody s.keyCount) false).setNoRecycle } := by
  obtain ⟨rfl, rfl, habsent⟩ := h.of_silent
  have hcount : s.keyCount = due.length := h.keyCount
  have hroom := h.room
  rw [List.nil_append] at hroom
  have hmap :
      due.map (answer store (k.setReplyData (errorReplyBody s.keyCount) false).setNoRecycle) =
        List.replicate due.length none :=
    List.map_const'
  have hlen := h.countable.length
  rw [List.nil_append, List.length_map] at hlen
  refine ⟨?_, hcount, ⟨?_, ?_, ?_⟩, .failed ⟨hq, rfl, ?_⟩,
    ⟨?_, fun _ => ?_, .inl ⟨rfl, rfl, habsent, ?_⟩⟩, fun _ he => ?_⟩
  · rw [← hsize] at hroom
    exact hroom
  · simpa using h.countable.nonempty
  · intro it hit
    rw [List.nil_append, hmap] at hit
    rw [List.eq_of_mem_replicate hit]
    decide
  · simpa using hlen
  · rw [hcount]
    rfl
  · refine ⟨[], ?_⟩
    rw [List.append_nil, List.map_nil, List.nil_append, hmap, hcount, errorReplyBody_eq]
  · rw [List.map_nil, List.nil_append, hmap, hcount, errorReplyBody_eq]
  · rw [hcount]
    exact Relay.setReplyData hv (hsize ▸ hroom.2) false
  · cases he

theorem replyRead (h : Link store clean got due source forwarded s)
    (he : s.backend.noRecycle = false) (hr : s.backend.isReadingReply = true) (hne : chunk ≠ [])
    (hc : chunk.length ≤ s.backend.buffer.freeSpaceSize)
    (ha : s.backend.received ++ chunk <+:
      encodeArray ((got ++ due).map (store s.backend.remoteEndpoint)))
    (hu : clean → Unbroken ((got ++ due).map (store s.backend.remoteEndpoint))
      (s.backend.received ++ chunk)) :
    Link store clean got due (source ++ chunk) forwarded
      { s with backend := (s.backend.handle (.replyRead chunk)).1 } := by
  have hs := h.serving he hr
  have hanswer : answer store s.backend = store s.backend.remoteEndpoint := by
    funext key
    simp [answer, BackendConn.error, he]
  rw [hs.received] at ha hu
  have hreceived : s.backend.received ++ chunk = source ++ chunk := by rw [hs.received]
  refine ⟨by simpa using h.room, h.keyCount, h.countable,
    .serving ⟨hs.query, hs.sent, he, hreceived, ?_⟩, ⟨?_, fun hcomplete => ?_, ?_⟩,
      fun hclean _ => ?_⟩
  · exact fun hnil => absurd (List.append_eq_nil_iff.mp hnil).2 hne
  · rw [← List.map_append]
    exact hanswer ▸ ha
  · have hwhole := h.stream.complete hcomplete
    have hle := ha.length_le
    rw [← hanswer, List.map_append, ← hwhole, List.length_append] at hle
    have := List.length_pos_iff.mpr hne
    omega
  · exact h.stream.parsed.imp (fun ⟨h₁, h₂, h₃, hr⟩ => ⟨h₁, h₂, h₃, hr.replyRead hc⟩)
      (fun ⟨h₁, h₂, hr⟩ => ⟨h₁, h₂, hr.replyRead hc⟩)
  · exact hanswer ▸ hu hclean

theorem advance (h : Link store clean got due source forwarded s) {s' : MgetSubquery ε} (j : ℕ)
    (ha : Advanced s s')
    (hs : Stream (got.map (answer store s.backend) ++ (due.map (answer store s.backend)).take j)
      ((due.map (answer store s.backend)).drop j) source forwarded s') :
    Link store clean (got ++ due.take j) (due.drop j) source forwarded s' := by
  obtain ⟨⟨buffer, complete, absent, rfl⟩, hsize, _⟩ := ha
  have hkeys : got ++ due.take j ++ due.drop j = got ++ due := by simp
  refine ⟨?_, ?_, ?_, ?_, ?_, ?_⟩
  · rw [hkeys]
    simp only at hsize
    rw [hsize]
    exact h.room
  · rw [hkeys]
    exact h.keyCount
  · rw [hkeys]
    exact h.countable
  · rw [hkeys]
    cases h.phase with
    | asking ha => exact .asking ⟨ha.query, ha.connection, ha.noError, ha.silent, ha.reading⟩
    | serving hs => exact .serving ⟨hs.query, hs.sent, hs.noError, hs.received, hs.listening⟩
    | failed hf => exact .failed ⟨hf.query, hf.error, hf.body⟩
  · rw [List.map_append, List.map_take, List.map_drop]
    exact hs
  · rw [hkeys]
    exact h.unbroken

theorem setBuffer (h : Link store clean got due source forwarded s) {forwarded' : Bytes}
    {buffer : ReadBuffer} (hsize : buffer.bufferSize = s.backend.buffer.bufferSize)
    (hs : Stream (got.map (answer store s.backend)) (due.map (answer store s.backend)) source
      forwarded' { s with backend := { s.backend with buffer := buffer } }) :
    Link store clean got due source forwarded'
      { s with backend := { s.backend with buffer := buffer } } := by
  refine ⟨by simpa [hsize] using h.room, h.keyCount, h.countable, ?_, hs, h.unbroken⟩
  cases h.phase with
  | asking ha => exact .asking ⟨ha.query, ha.connection, ha.noError, ha.silent, ha.reading⟩
  | serving hs => exact .serving ⟨hs.query, hs.sent, hs.noError, hs.received, hs.listening⟩
  | failed hf => exact .failed ⟨hf.query, hf.error, hf.body⟩

theorem decRecycleLock (h : Link store clean got due source forwarded s) :
    Link store clean got due source forwarded
      { s with backend := { s.backend with buffer := s.backend.buffer.decRecycleLock } } := by
  refine h.setBuffer (by simp) ⟨h.stream.answer, h.stream.complete, ?_⟩
  exact h.stream.parsed.imp (fun ⟨h₁, h₂, h₃, hr⟩ => ⟨h₁, h₂, h₃, hr.decRecycleLock⟩)
    (fun ⟨h₁, h₂, hr⟩ => ⟨h₁, h₂, hr.decRecycleLock⟩)

theorem readReply (h : Link store clean got due source forwarded s) (hs : source ≠ []) :
    Link store clean got due source forwarded { s with backend := s.backend.readReply } := by
  refine ⟨h.room, h.keyCount, h.countable, ?_, ⟨h.stream.answer, h.stream.complete, ?_⟩, h.unbroken⟩
  · cases h.phase with
    | asking ha => exact absurd ha.silent.1 hs
    | serving hs => exact .serving ⟨hs.query, hs.sent, hs.noError, hs.received, fun _ => rfl⟩
    | failed hf => exact .failed ⟨hf.query, hf.error, hf.body⟩
  · exact h.stream.parsed.imp (fun ⟨h₁, h₂, h₃, hr⟩ => ⟨h₁, h₂, h₃, hr.incRecycleLock⟩)
      (fun ⟨h₁, h₂, hr⟩ => ⟨h₁, h₂, hr.incRecycleLock⟩)

theorem noError (h : Link store clean got due source forwarded s)
    (hw : source ≠
      encodeArray (got.map (answer store s.backend) ++ due.map (answer store s.backend))) :
    s.backend.noRecycle = false := by
  cases h.phase with
  | asking ha => exact ha.noError
  | serving hs => exact hs.noError
  | failed hf => exact absurd (hf.whole store) hw

theorem waits
    (h : Link store clean got due source (encodeItems (got.map (answer store s.backend))) s)
    (hdue : due ≠ []) (hun : s.backend.buffer.unparsedBytes = 0) (hclean : clean) :
    s.backend.query ≠ none ∨
      (s.backend.noRecycle = false ∧ s.backend.isReadingReply = true) := by
  by_cases he : s.backend.noRecycle = false ∧ source ≠ []
  · obtain ⟨he, hne⟩ := he
    exfalso
    rcases h.stream.parsed with ⟨_, _, _, hr⟩ | ⟨ht, _, hr⟩
    · rw [hr.unparsedBytes] at hun
      exact hne (List.length_eq_zero_iff.mp (by omega))
    · have hgot := List.length_pos_iff.mpr ht
      have hpos := List.length_pos_iff.mpr hdue
      rw [List.length_map] at hgot
      refine h.unbroken hclean he got.length hgot (by simp; omega) ?_
      rw [hr.unparsedBytes] at hun
      rw [List.map_append, List.take_left' (by simp)]
      refine (List.IsPrefix.eq_of_length_le ⟨_, hr.bytes⟩ ?_).symm
      rw [List.length_append]
      omega
  · cases h.phase with
    | asking ha =>
      obtain ⟨_, _, hq, _⟩ := ha.query
      left
      rcases hq with hq | hq
      · simp [hq]
      · simp [hq]
    | serving hs =>
      have hnil : source = [] := not_not.mp fun hne => he ⟨hs.noError, hne⟩
      exact .inr ⟨hs.noError, hs.listening hnil⟩
    | failed hf =>
      -- the nils of a failed backend are all there
      exfalso
      have hwhole := hf.whole store
      have hlen := congrArg List.length hwhole
      rw [length_encodeArray_append] at hlen
      have hitems : 0 < (encodeItems (due.map (answer store s.backend))).length := by
        obtain ⟨key, keys, rfl⟩ := List.exists_cons_of_ne_nil hdue
        rw [List.map_cons, length_encodeItems_cons]
        have := four_le_headerSize (answer store s.backend key)
        have := headerSize_le (answer store s.backend key)
        omega
      rcases h.stream.parsed with ⟨_, _, _, hr⟩ | ⟨_, _, hr⟩
      · rw [hr.unparsedBytes] at hun
        omega
      · rw [hr.unparsedBytes] at hun
        omega

end Link

namespace Locked

theorem replyRead (h : Locked false k) (hr : k.isReadingReply = true) (hv : k.buffer.Valid)
    (hc : chunk.length ≤ k.buffer.freeSpaceSize) :
    Locked false (k.handle (.replyRead chunk)).1 := by
  have hl : k.buffer.recycleLockCount = 1 := by simpa [hr] using h.locks
  refine ⟨?_, fun _ _ => ReadBuffer.decRecycleLock_compact (ReadBuffer.receive_valid hv hc) hl⟩
  simp [BackendConn.handle, ReadBuffer.receive, hl]

theorem write (h : Locked false k) (hr : k.isReadingReply = false) {buffer : ReadBuffer}
    {complete : Bool} (hl : buffer.recycleLockCount = k.buffer.recycleLockCount + 1) :
    Locked true { k with buffer := buffer, replyRecvComplete := complete } := by
  refine ⟨?_, fun _ hw => by cases hw⟩
  simp [hl, h.locks, hr]

theorem written (h : Locked true k) (hr : k.isReadingReply = false) (hv : k.buffer.Valid) :
    Locked false { k with buffer := k.buffer.decRecycleLock } := by
  have hl : k.buffer.recycleLockCount = 1 := by simpa [hr] using h.locks
  refine ⟨?_, fun _ _ => ReadBuffer.decRecycleLock_compact hv hl⟩
  simp [hl, hr]

theorem readReply (h : Locked false k) (hr : k.isReadingReply = false) :
    Locked false k.readReply := by
  refine ⟨?_, fun hn => by cases hn⟩
  simp [BackendConn.readReply, ReadBuffer.incRecycleLock, h.locks, hr]

theorem tryReadMoreReply (h : Locked false k) (hr : k.isReadingReply = false)
    (hc : k.replyRecvComplete = false) (hv : k.buffer.Valid) (hq : k.buffer.queued.length < 40)
    (hs : 1024 ≤ k.buffer.bufferSize) : k.tryReadMoreReply = k.readReply := by
  have hspace := (h.compact hr rfl).hasMuchFreeSpace hv hq hs
  simp [BackendConn.tryReadMoreReply, hr, hc, hspace]

end Locked
end RedisMgetCommand
end Yarmproxy

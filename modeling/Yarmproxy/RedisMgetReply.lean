import Yarmproxy.RedisMgetCommand
import Yarmproxy.RedisArrays
import Yarmproxy.Relay

/-! # Replies to a sub-`MGET`

A backend's reply is an array. Its header is skipped when the first bulk is taken; from then
on the parsed offset stands behind the bulks that have been taken, which may be ahead of
what has been received. -/
namespace Yarmproxy
namespace RedisMgetCommand

variable {ε : Type} {taken left : List Item} {source forwarded : Bytes} {s : MgetSubquery ε}

/-- The bulks `taken` of an array have been taken and `left` are to come. `source` has been
received, and `forwarded` of the taken bulks has been handed on. -/
structure Stream (taken left : List Item) (source forwarded : Bytes) (s : MgetSubquery ε) :
    Prop where
  answer : source <+: encodeArray (taken ++ left)
  complete : s.backend.replyRecvComplete = true → source = encodeArray (taken ++ left)
  parsed : (taken = [] ∧ forwarded = [] ∧ s.replyAbsentBulks = 0 ∧
      Relay source 0 [] s.backend.buffer) ∨
    (taken ≠ [] ∧ s.replyAbsentBulks = left.length ∧
      Relay source ((serializePrefix (taken ++ left).length).length + (encodeItems taken).length)
        (serializePrefix (taken ++ left).length ++ forwarded) s.backend.buffer)

/-- Arrays of a sub-`MGET` whose sizes a `size_t` and an `int` can count. -/
structure Countable (its : List Item) : Prop where
  nonempty : its ≠ []
  items : ∀ it ∈ its, itemSize it < 2 ^ 62
  length : its.length < 2 ^ 31

theorem encodeItems_append (xs ys : List Item) :
    encodeItems (xs ++ ys) = encodeItems xs ++ encodeItems ys := List.flatMap_append

theorem length_encodeArray_append (xs ys : List Item) : (encodeArray (xs ++ ys)).length =
    (serializePrefix (xs ++ ys).length).length + (encodeItems xs).length +
      (encodeItems ys).length := by
  rw [encodeArray, encodeItems_append]
  generalize serializePrefix (xs ++ ys).length = header
  rw [List.length_append, List.length_append, Nat.add_assoc]

theorem length_encodeItems_snoc (its : List Item) (it : Item) :
    (encodeItems (its ++ [it])).length = (encodeItems its).length + itemSize it := by
  simp [encodeItems, itemSize]

/-- What the parser may change in a subquery. -/
structure Advanced (s s' : MgetSubquery ε) : Prop where
  frame : ∃ buffer complete absent, s' = { s with
    backend := { s.backend with buffer := buffer, replyRecvComplete := complete }
    replyAbsentBulks := absent }
  size : s'.backend.buffer.bufferSize = s.backend.buffer.bufferSize
  locks : s'.backend.buffer.recycleLockCount = s.backend.buffer.recycleLockCount

theorem Advanced.refl (s : MgetSubquery ε) : Advanced s s := ⟨⟨_, _, _, rfl⟩, rfl, rfl⟩

theorem Advanced.trans {s s' s'' : MgetSubquery ε} (h : Advanced s s') (h' : Advanced s' s'') :
    Advanced s s'' := by
  obtain ⟨⟨buffer, complete, absent, rfl⟩, hsize, hlocks⟩ := h
  obtain ⟨⟨buffer', complete', absent', rfl⟩, hsize', hlocks'⟩ := h'
  exact ⟨⟨_, _, _, rfl⟩, hsize'.trans hsize, hlocks'.trans hlocks⟩

/-- How a round can end on a reply of which some bytes are not parsed. -/
inductive RoundResult (taken left : List Item) (source forwarded : Bytes) (s : MgetSubquery ε) :
    Option (MgetSubquery ε × Round) → Prop where
  | failed {s'} : RoundResult taken left source forwarded s (some (s', .failed))
  | waiting : s.backend.buffer.unparsedBytes < 40 → source ≠ encodeArray (taken ++ left) →
    RoundResult taken left source forwarded s (some (s, .waiting))
  | bulk {it left' s'} : left = it :: left' → Advanced s s' →
    0 < s'.backend.buffer.unprocessedBytes →
    Stream (taken ++ [it]) left' source forwarded s' →
    RoundResult taken left source forwarded s (some (s', .bulk))

theorem take_of_answer (h : source <+: encodeArray (taken ++ left)) :
    source = (encodeArray (taken ++ left)).take source.length :=
  List.prefix_iff_eq_take.mp h

theorem Stream.unparsed (h : Stream taken left source forwarded s) (ht : taken ≠ [])
    (hu : 0 < s.backend.buffer.unparsedBytes) :
    let b := s.backend.buffer
    b.unparsedData.rest.take b.unparsedBytes = (encodeItems left).take b.unparsedBytes ∧
      b.unparsedBytes ≤ b.unparsedData.rest.length ∧
        b.unparsedBytes ≤ (encodeItems left).length := by
  obtain ⟨_, _, hr⟩ := h.parsed.resolve_left fun h => ht h.1
  have hun := hr.unparsedBytes
  have hle : (serializePrefix (taken ++ left).length).length + (encodeItems taken).length ≤
      source.length := by omega
  obtain ⟨hd, hl⟩ := hr.unparsedData hle
  rw [← hun] at hd hl
  have hsplit : encodeArray (taken ++ left) =
      (serializePrefix (taken ++ left).length ++ encodeItems taken) ++ encodeItems left := by
    rw [encodeArray, encodeItems_append, List.append_assoc]
  have hsource := take_of_answer h.answer
  have hlen := h.answer.length_le
  rw [hsplit, List.length_append, List.length_append] at hlen
  refine ⟨?_, hl, by omega⟩
  rw [← List.length_append] at hd hun
  rw [hd, hsource, List.drop_take, hsplit, List.drop_left, ← hun]

theorem headerSize_lt {it : Item} (h : itemSize it < 2 ^ 62) : headerSize it < 23 := by
  cases it with
  | none => decide
  | some v =>
    rw [itemSize_some] at h
    have := length_dec_le (n := v.length) (k := 19) (by decide) (by omega)
    simp only [headerSize]
    omega

/-- The end of a round that takes `it`, whatever it did to the buffer. -/
theorem RoundResult.of_buffer {it : Item} {left' : List Item} {buffer : ReadBuffer}
    {completed : Bool} (h : Stream taken (it :: left') source forwarded s)
    (hr : Relay source
      ((serializePrefix (taken ++ it :: left').length).length +
        (encodeItems (taken ++ [it])).length)
      (serializePrefix (taken ++ it :: left').length ++ forwarded) buffer)
    (hsize : buffer.bufferSize = s.backend.buffer.bufferSize)
    (hlocks : buffer.recycleLockCount = s.backend.buffer.recycleLockCount)
    (hfresh : forwarded.length < (encodeItems (taken ++ [it])).length ∧
      (serializePrefix (taken ++ it :: left').length).length + forwarded.length < source.length)
    (hc : completed = true → source = encodeArray (taken ++ it :: left')) :
    RoundResult taken (it :: left') source forwarded s
      (some (taking s buffer left'.length completed, .bulk)) := by
  have hassoc : (taken ++ [it]) ++ left' = taken ++ it :: left' := by simp
  have hun : 0 < buffer.unprocessedBytes := by
    rw [hr.unprocessedBytes]
    generalize serializePrefix (taken ++ it :: left').length = header at hfresh
    rw [List.length_append]
    omega
  cases completed with
  | true =>
    refine .bulk rfl ⟨⟨buffer, true, left'.length, rfl⟩, hsize, hlocks⟩ hun
      ⟨?_, fun _ => ?_, Or.inr ⟨by simp, rfl, ?_⟩⟩
    · exact hassoc ▸ h.answer
    · exact hassoc ▸ hc rfl
    · exact hassoc ▸ hr
  | false =>
    refine .bulk rfl ⟨⟨buffer, s.backend.replyRecvComplete, left'.length, rfl⟩, hsize, hlocks⟩ hun
      ⟨?_, fun hs => ?_, Or.inr ⟨by simp, rfl, ?_⟩⟩
    · exact hassoc ▸ h.answer
    · exact hassoc ▸ h.complete hs
    · exact hassoc ▸ hr

theorem parseNext_bulk {total : ℕ} {completed : Bool}
    (hp : 0 < (Bulk.parse s.backend.buffer.unparsedData s.backend.buffer.unparsedBytes).presentSize)
    (ht : Bulk.totalOf s.backend.buffer.unparsedData.rest = some total)
    (hc : (Bulk.parse s.backend.buffer.unparsedData s.backend.buffer.unparsedBytes).completed =
      some completed) :
    parseNext s = some (taking s (s.backend.buffer.updateParsedBytes total)
      (s.replyAbsentBulks - 1) (decide (s.replyAbsentBulks - 1 = 0) && completed), .bulk) := by
  have ht' : (Bulk.parse s.backend.buffer.unparsedData
      s.backend.buffer.unparsedBytes).totalSize = some total := ht
  unfold parseNext
  simp only [ht', hc]
  rw [if_neg (by omega), if_neg (by omega)]
  by_cases ha : s.replyAbsentBulks - 1 = 0
  · simp [ha, taking]
  · simp [ha, taking]

theorem parseNext_result (h : Stream taken left source forwarded s) (ht : taken ≠ [])
    (hc : Countable (taken ++ left)) (hu : 0 < s.backend.buffer.unparsedBytes) :
    RoundResult taken left source forwarded s (parseNext s) := by
  obtain ⟨hm, hl, hle⟩ := h.unparsed ht hu
  obtain ⟨_, habsent, hr⟩ := h.parsed.resolve_left fun h => ht h.1
  have hun := hr.unparsedBytes
  have hbytes := hr.unparsedBytes_le
  obtain ⟨it, left', rfl⟩ : ∃ it left', left = it :: left' := by
    cases left with
    | nil =>
      simp [encodeItems] at hle
      omega
    | cons it left' => exact ⟨it, left', rfl⟩
  have hsize : itemSize it < 2 ^ 62 := hc.items it (by simp)
  have hm : s.backend.buffer.unparsedData.rest.take s.backend.buffer.unparsedBytes =
      (encodeItem it ++ encodeItems left').take s.backend.buffer.unparsedBytes := hm
  have hpresent := parseSize_item hm hl (by omega) (by omega)
  by_cases hh : s.backend.buffer.unparsedBytes < headerSize it
  · rw [if_pos hh] at hpresent
    have hw : parseNext s = some (s, .waiting) := by
      simp [parseNext, Bulk.parse, hpresent]
    rw [hw]
    have := headerSize_lt hsize
    have := headerSize_le it
    refine .waiting (by omega) fun hwhole => ?_
    have hlen := congrArg List.length hwhole
    rw [length_encodeArray_append, length_encodeItems_cons] at hlen
    omega
  · rw [if_neg hh] at hpresent
    have h4 := four_le_headerSize it
    have hhs := headerSize_le it
    have htotal := totalOf_item hm (by omega) (by omega)
    have hcompleted := completed_item (p := s.backend.buffer.unparsedData)
      (show s.backend.buffer.unparsedBytes < 2 ^ 31 by omega) (by omega) hu htotal
    rw [← hpresent] at hcompleted
    rw [parseNext_bulk (by simp only [Bulk.parse, hpresent]; omega) htotal hcompleted, habsent]
    have hsnoc := length_encodeItems_snoc taken it
    have hpos := hr.parsed
    have hsource := hr.length_source
    have hheader : (serializePrefix (taken ++ it :: left').length ++ forwarded).length =
      (serializePrefix (taken ++ it :: left').length).length + forwarded.length :=
        List.length_append
    refine RoundResult.of_buffer h ?_ rfl rfl ⟨by omega, by omega⟩ ?_
    · rw [hsnoc, ← Nat.add_assoc]
      exact hr.updateParsedBytes (by omega)
    · intro hall
      simp only [Bool.and_eq_true, decide_eq_true_eq, List.length_cons, Nat.add_sub_cancel,
        List.length_eq_zero_iff] at hall
      obtain ⟨rfl, hall⟩ := hall
      refine h.answer.eq_of_length_le ?_
      rw [encodeArray, List.length_append, hsnoc]
      omega

theorem takeFirst_bulk {ba : BulkArray} {first : Bulk} {total header absent : ℕ}
    {completed : Bool} (ht : first.totalSize = some total)
    (hh : first.rawData.off - ba.rawData.off = header) (hb : ba.totalBulks ≠ 0)
    (ha : subSize ba.totalBulks 1 = absent) (hc : absent = 0 → ba.completed = some completed) :
    takeFirst s ba first = some (taking s
      ((s.backend.buffer.updateParsedBytes (addSize header total)).updateProcessedOffset header)
      absent (decide (absent = 0) && completed), .bulk) := by
  unfold takeFirst
  simp only [ht, hh, ha, Option.bind_eq_bind, Option.bind_some, if_neg hb]
  by_cases h0 : absent = 0
  · simp [h0, hc h0]
  · simp [h0]

section ParseFirst
variable {ba : BulkArray}
  (hba : BulkArray.parse s.backend.buffer.unparsedData s.backend.buffer.unparsedBytes = some ba)
include hba

theorem parseFirst_failed (h : ba.parsedSize < 0) : parseFirst s = some (s, .failed) := by
  rw [parseFirst, hba, Option.bind_eq_bind, Option.bind_some, if_pos h]

theorem parseFirst_waiting (h : ba.parsedSize = 0 ∨ 0 < ba.parsedSize ∧ ba.items = []) :
    parseFirst s = some (s, .waiting) := by
  rw [parseFirst, hba, Option.bind_eq_bind, Option.bind_some]
  rcases h with h | ⟨h, hi⟩
  · rw [if_neg (by omega), if_pos h]
  · rw [if_neg (by omega), if_neg (by omega), hi]

theorem parseFirst_bulk {first : Bulk} {rest : List Bulk} (h : 0 < ba.parsedSize)
    (hi : ba.items = first :: rest) : parseFirst s = takeFirst s ba first := by
  rw [parseFirst, hba, Option.bind_eq_bind, Option.bind_some, if_neg (by omega),
    if_neg (by omega), hi]

end ParseFirst

theorem completed_single {ba : BulkArray} {p : Ptr} {it : Item} {n : ℕ} (hb : ba.totalBulks = 1)
    (hi : ba.items = [⟨p, (min n (itemSize it) : ℕ)⟩]) (hn : n < 2 ^ 31)
    (hs : itemSize it < 2 ^ 63) (ht : Bulk.totalOf p.rest = some (itemSize it)) :
    ba.completed = some (decide (itemSize it ≤ n)) := by
  have habs := absentSize_item (p := p) (show min n (itemSize it) < 2 ^ 31 by omega) hs ht
  rw [BulkArray.completed, hi, hb]
  simp only [List.length_singleton, ne_eq, not_true_eq_false, if_false, List.getLast?_singleton,
    habs, Option.map_some, Option.some.injEq]
  by_cases h : itemSize it ≤ n
  · simp [h]
  · rw [decide_eq_false h, Bool.not_eq_false', decide_eq_true_eq]
    omega

theorem Relay.takeFirst {it : Item} {left : List Item} {b : ReadBuffer} (hr : Relay source 0 [] b)
    (ha : source <+: encodeArray (it :: left)) (hs : itemSize it < 2 ^ 62)
    (hc : (it :: left).length < 2 ^ 31)
    (hn : (serializePrefix (it :: left).length).length ≤ source.length) :
    Relay source ((serializePrefix (it :: left).length).length + (encodeItems [it]).length)
      (serializePrefix (it :: left).length)
      (ReadBuffer.updateProcessedOffset
        (b.updateParsedBytes (addSize (serializePrefix (it :: left).length).length (itemSize it)))
        (serializePrefix (it :: left).length).length) := by
  have hlen := length_serializePrefix (it :: left).length
  have hdec := length_dec_le (n := (it :: left).length) (k := 10) (by decide) (by omega)
  have hone : (encodeItems [it]).length = itemSize it := by simp [encodeItems, itemSize]
  have hqueued : b.queued = source := hr.bytes
  have htake : source.take (serializePrefix (it :: left).length).length =
      serializePrefix (it :: left).length := by
    obtain ⟨rest, hrest⟩ := ha
    have happ : (source ++ rest).take (serializePrefix (it :: left).length).length =
        source.take (serializePrefix (it :: left).length).length := List.take_append_of_le_length hn
    rw [← happ, hrest, encodeArray, List.take_left]
  rw [addSize_eq (by omega), hone]
  have hparsed := hr.updateParsedBytes
    (n := (serializePrefix (it :: left).length).length + itemSize it)
      (by simp only [List.length_nil]; omega)
  have hahead := hparsed.parsed
  rw [Nat.zero_add, List.length_nil, Nat.zero_add] at hahead
  have := hparsed.updateProcessedOffset (n := (serializePrefix (it :: left).length).length)
    (by rw [ReadBuffer.queued_updateParsedBytes, hqueued]; exact hn) (by omega)
  rwa [Nat.zero_add, List.nil_append, ReadBuffer.queued_updateParsedBytes, hqueued, htake] at this

theorem parseFirst_cons {it : Item} {left' : List Item} {ba : BulkArray}
    (h : Stream [] (it :: left') source [] s) (hc : Countable (it :: left'))
    (hr : Relay source 0 [] s.backend.buffer)
    (hm : s.backend.buffer.unparsedData.rest.take source.length =
      (encodeArray (it :: left') ++ []).take source.length)
    (hn : (serializePrefix (it :: left').length).length ≤ source.length)
    (hba : BulkArray.parse s.backend.buffer.unparsedData s.backend.buffer.unparsedBytes = some ba)
    (hp : 0 < ba.parsedSize) (hraw : ba.rawData = s.backend.buffer.unparsedData)
    (hitems : ba.items = presentItems s.backend.buffer.unparsedData.mem
      (s.backend.buffer.unparsedData.off + (serializePrefix (it :: left').length).length)
        (it :: left')
      (source.length - (serializePrefix (it :: left').length).length)) :
    RoundResult [] (it :: left') source [] s (parseFirst s) := by
  have hun := hr.unparsedBytes
  have hbytes := hr.unparsedBytes_le
  have hsize : itemSize it < 2 ^ 62 := hc.items it (by simp)
  have hcount := hc.length
  have hdec := length_dec_le (n := (it :: left').length) (k := 10) (by decide) (by omega)
  have hlen := length_serializePrefix (it :: left').length
  have hrelay := Relay.takeFirst hr h.answer hsize hcount hn
  have hbulks := BulkArray.totalBulks_encoded hraw hm hn hcount
  have hoff : ∀ k, s.backend.buffer.unparsedData.off + k - ba.rawData.off = k := by
    intro k
    rw [hraw]
    omega
  have hm' := drop_take_eq hm (serializePrefix (it :: left').length).length
  rw [List.append_nil, encodeArray, List.drop_left, Ptr.rest, List.drop_drop] at hm'
  change _ = (encodeItem it ++ encodeItems left').take _ at hm'
  rw [presentItems] at hitems
  have hwhole : (encodeArray (it :: left')).length =
      (serializePrefix (it :: left').length).length + (encodeItems (it :: left')).length :=
    List.length_append
  generalize hheader : (serializePrefix (it :: left').length).length = header at *
  by_cases hh : source.length - header < headerSize it
  · rw [if_pos hh] at hitems
    rw [parseFirst_waiting hba (.inr ⟨hp, hitems⟩)]
    have := headerSize_lt hsize
    have := headerSize_le it
    refine .waiting (by omega) fun hall => ?_
    have := congrArg List.length hall
    rw [List.nil_append, hwhole, length_encodeItems_cons] at this
    omega
  · rw [if_neg hh] at hitems
    have hhs := headerSize_le it
    have htotal : Bulk.totalOf (Ptr.rest ⟨s.backend.buffer.unparsedData.mem,
        s.backend.buffer.unparsedData.off + header⟩) = some (itemSize it) :=
      totalOf_item hm' (by omega) (by omega)
    have habsent : subSize ba.totalBulks 1 = left'.length := by
      rw [hbulks, List.length_cons] at *
      exact subSize_eq (by omega) (by omega)
    have hcompleted : left'.length = 0 →
        ba.completed = some (decide (itemSize it ≤ source.length - header)) := by
      intro h0
      obtain rfl := List.length_eq_zero_iff.mp h0
      exact completed_single hbulks hitems (by omega) (by omega) htotal
    rw [parseFirst_bulk hba hp hitems,
      takeFirst_bulk (by exact htotal) (hoff _) (by simp [hbulks]) habsent hcompleted]
    have hone : (encodeItems [it]).length = itemSize it := by simp [encodeItems, itemSize]
    have h4 := four_le_headerSize it
    refine RoundResult.of_buffer h ?_ rfl rfl ⟨?_, ?_⟩ ?_
    · rw [List.nil_append, List.append_nil, hheader]
      exact hrelay
    · rw [List.nil_append, hone, List.length_nil]
      omega
    · rw [List.nil_append, hheader, List.length_nil]
      omega
    · intro hall
      simp only [Bool.and_eq_true, decide_eq_true_eq, List.length_eq_zero_iff] at hall
      obtain ⟨rfl, hall⟩ := hall
      refine h.answer.eq_of_length_le ?_
      rw [List.nil_append, hwhole, hone]
      omega

theorem parseFirst_result (h : Stream [] left source [] s) (hc : Countable left)
    (hr : Relay source 0 [] s.backend.buffer) :
    RoundResult [] left source [] s (parseFirst s) := by
  have hun := hr.unparsedBytes
  have hbytes := hr.unparsedBytes_le
  obtain ⟨hd, hl⟩ := hr.unparsedData (Nat.zero_le _)
  have hanswer : source <+: encodeArray left := h.answer
  have hm : s.backend.buffer.unparsedData.rest.take source.length =
      (encodeArray left ++ []).take source.length := by
    rw [List.append_nil, ← List.prefix_iff_eq_take.mp hanswer]
    exact hd
  have hcount := hc.length
  rw [Nat.sub_zero] at hun hl
  by_cases hn : source.length < (serializePrefix left.length).length
  · have hdec := length_dec_le (n := left.length) (k := 10) (by decide) (by omega)
    have hlen := length_serializePrefix left.length
    have hshort := BulkArray.parse_short hm hn
    rw [← hun] at hshort
    rw [parseFirst_waiting hshort (.inl (sizeToInt_eq (show 0 < 2 ^ 31 by decide)))]
    refine .waiting (by omega) fun hall => ?_
    have := congrArg List.length hall
    rw [List.nil_append, encodeArray, List.length_append] at this
    omega
  · have hba := BulkArray.parse_encoded hm hl (fun _ _ => by omega) (fun it hit => by
      have := hc.items it hit
      omega) (by omega) (by omega)
    rw [← hun] at hba
    rcases Int.lt_trichotomy (BulkArray.parsedArray s.backend.buffer.unparsedData left
      s.backend.buffer.unparsedBytes).parsedSize 0 with hp | hp | hp
    · rw [parseFirst_failed hba hp]
      exact .failed
    · exact absurd hp (BulkArray.parsedSize_parsedArray hcount)
    · cases left with
      | nil => exact absurd rfl hc.nonempty
      | cons it left' =>
        refine parseFirst_cons h hc hr hm (by omega) hba hp BulkArray.rawData_parsedArray ?_
        rw [BulkArray.items_parsedArray, hun]

theorem parseRound_result (h : Stream taken left source forwarded s)
    (hc : Countable (taken ++ left)) (hu : 0 < s.backend.buffer.unparsedBytes) :
    RoundResult taken left source forwarded s (parseRound s) := by
  rcases h.parsed with ⟨rfl, rfl, h0, hr⟩ | ⟨ht, habsent, hr⟩
  · rw [parseRound, if_pos h0]
    exact parseFirst_result h hc hr
  · have hne : s.replyAbsentBulks ≠ 0 := by
      obtain ⟨_, _, hle⟩ := h.unparsed ht hu
      rw [habsent]
      rintro h0
      rw [List.length_eq_zero_iff.mp h0] at hle
      simp [encodeItems] at hle
      omega
    rw [parseRound, if_neg hne]
    exact parseNext_result h ht hc hu

theorem Stream.unparsedBytes_lt {it : Item} {left' : List Item} {s' : MgetSubquery ε}
    (h : Stream taken (it :: left') source forwarded s)
    (h' : Stream (taken ++ [it]) left' source forwarded s')
    (hu : 0 < s.backend.buffer.unparsedBytes) :
    s'.backend.buffer.unparsedBytes < s.backend.buffer.unparsedBytes := by
  obtain ⟨_, _, hr'⟩ := h'.parsed.resolve_left fun h0 => by simp at h0
  have hassoc : (taken ++ [it]) ++ left' = taken ++ it :: left' := by simp
  rw [hassoc] at hr'
  have hun' := hr'.unparsedBytes
  rw [length_encodeItems_snoc] at hun'
  have := headerSize_le it
  have := four_le_headerSize it
  rcases h.parsed with ⟨_, _, _, hr⟩ | ⟨_, _, hr⟩
  · have hun := hr.unparsedBytes
    omega
  · have hun := hr.unparsedBytes
    omega

/-- How the loop of `ParseReply` can end on the run of `n` bulks of `b` that is at the front:
with a protocol error, or with `j` bulks taken. -/
inductive LoopResult (b n : ℕ) (queue : List (ℕ × ℕ)) (taken left : List Item)
    (source forwarded : Bytes) (c : RedisMgetCommand ε) :
    Option (RedisMgetCommand ε × Bool) → Prop where
  | failed {c'} : LoopResult b n queue taken left source forwarded c (some (c', false))
  | parsed {s'} (j : ℕ) : j ≤ n → j ≤ left.length → Advanced (c.subquery b) s' →
    Stream (taken ++ left.take j) (left.drop j) source forwarded s' →
    (j = 0 → s' = c.subquery b ∧ (0 < n →
      (c.backend b).buffer.unparsedBytes = 0 ∨ source ≠ encodeArray (taken ++ left))) →
    (0 < j → 0 < s'.backend.buffer.unprocessedBytes) →
    (j = n ∨ s'.backend.buffer.unparsedBytes < 40) →
    LoopResult b n queue taken left source forwarded c
      (some ({ c.setSubquery b s' with waitingReplyQueue := (b, n - j) :: queue }, true))

section Loop
variable {b n : ℕ} {queue : List (ℕ × ℕ)} {c : RedisMgetCommand ε}

@[simp] theorem setSubquery_self : c.setSubquery b (c.subquery b) = c := by
  simp [setSubquery]

@[simp] theorem subquery_setSubquery (i : ℕ) :
    (c.setSubquery b s).subquery i = if i = b then s else c.subquery i :=
  Function.update_apply _ _ _ _

theorem LoopResult.stay (hq : c.waitingReplyQueue = (b, n) :: queue)
    (hs : Stream taken left source forwarded (c.subquery b))
    (hu : 0 < n → (c.backend b).buffer.unparsedBytes = 0 ∨ source ≠ encodeArray (taken ++ left))
    (hend : 0 = n ∨ (c.backend b).buffer.unparsedBytes < 40) :
    LoopResult b n queue taken left source forwarded c (some (c, true)) := by
  have h : LoopResult b n queue taken left source forwarded c (some
      ({ c.setSubquery b (c.subquery b) with waitingReplyQueue := (b, n - 0) :: queue }, true)) :=
    .parsed 0 (Nat.zero_le _) (Nat.zero_le _) (Advanced.refl _) (by simpa using hs)
      (fun _ => ⟨rfl, hu⟩) (fun h0 => absurd h0 (Nat.lt_irrefl 0)) hend
  rwa [setSubquery_self, Nat.sub_zero, ← hq] at h

/-- One bulk has been taken, and the loop has gone on from there. -/
theorem LoopResult.cons {it : Item} {left' : List Item} {s' : MgetSubquery ε}
    {r : Option (RedisMgetCommand ε × Bool)} (ha : Advanced (c.subquery b) s')
    (hf : 0 < s'.backend.buffer.unprocessedBytes)
    (h : LoopResult b n queue (taken ++ [it]) left' source forwarded
      { c.setSubquery b s' with waitingReplyQueue := (b, n) :: queue } r) :
    LoopResult b (n + 1) queue taken (it :: left') source forwarded c r := by
  cases h with
  | failed => exact .failed
  | @parsed s'' j hn hl ha' hs hstay hun hend =>
    have hsub : RedisMgetCommand.subquery
        { c.setSubquery b s' with waitingReplyQueue := (b, n) :: queue } b = s' := by
      simp [setSubquery]
    rw [hsub] at ha' hstay
    have hc : { ({ c.setSubquery b s' with waitingReplyQueue := (b, n) :: queue } :
          RedisMgetCommand ε).setSubquery b s'' with waitingReplyQueue := (b, n - j) :: queue } =
        { c.setSubquery b s'' with waitingReplyQueue := (b, n + 1 - (j + 1)) :: queue } := by
      simp [setSubquery]
    rw [hc]
    refine .parsed (j + 1) (by omega) (by simpa using hl) (ha.trans ha') (by simpa using hs)
      (by simp)
      (fun _ => ?_) (hend.imp (by omega) id)
    rcases Nat.eq_zero_or_pos j with h0 | h0
    · rw [(hstay h0).1]
      exact hf
    · exact hun h0

theorem parseReplyLoop_result (fuel : ℕ) : ∀ {n taken left} {c : RedisMgetCommand ε},
    c.waitingReplyQueue = (b, n) :: queue →
    (0 < n ∨ (c.backend b).buffer.unparsedBytes = 0) →
    Stream taken left source forwarded (c.subquery b) → Countable (taken ++ left) →
    (c.backend b).buffer.unparsedBytes ≤ fuel →
    LoopResult b n queue taken left source forwarded c (parseReplyLoop b fuel c) := by
  induction fuel with
  | zero =>
    intro n taken left c hq _ hs _ hfuel
    rw [parseReplyLoop, if_pos (by omega)]
    exact .stay hq hs (fun _ => .inl (by omega)) (.inr (by omega))
  | succ fuel ih =>
    intro n taken left c hq hn hs hc hfuel
    rw [parseReplyLoop]
    by_cases hz : (c.backend b).buffer.unparsedBytes = 0
    · rw [if_pos hz]
      exact .stay hq hs (fun _ => .inl hz) (.inr (by omega))
    · have hu : 0 < (c.subquery b).backend.buffer.unparsedBytes := Nat.pos_of_ne_zero hz
      obtain ⟨n, rfl⟩ := Nat.exists_eq_succ_of_ne_zero (Nat.ne_of_gt (hn.resolve_right hz))
      have hround := parseRound_result hs hc hu
      rw [if_neg hz]
      generalize parseRound (c.subquery b) = r at hround
      cases hround with
      | failed => exact .failed
      | waiting h40 hw =>
        simp only [Option.bind_eq_bind, Option.bind_some, setSubquery_self]
        exact .stay hq hs (fun _ => .inr hw) (.inr h40)
      | @bulk it left' s' hleft ha hf hs' =>
        subst hleft
        have htake : takeBulk (c.setSubquery b s') = some
            ({ c.setSubquery b s' with waitingReplyQueue := (b, n) :: queue }, n == 0) := by
          simp only [takeBulk, setSubquery, hq]
        simp only [Option.bind_eq_bind, Option.bind_some, htake]
        have hsub : RedisMgetCommand.subquery
            { c.setSubquery b s' with waitingReplyQueue := (b, n) :: queue } b = s' := by
          simp [setSubquery]
        have hlt := hs.unparsedBytes_lt hs' hu
        refine LoopResult.cons ha hf ?_
        cases n with
        | zero =>
          exact .stay rfl (hsub.symm ▸ hs') (fun h0 => absurd h0 (Nat.lt_irrefl 0)) (.inl rfl)
        | succ n =>
          rw [if_neg (by simp)]
          refine ih rfl (.inl (Nat.succ_pos n)) (hsub.symm ▸ hs') (by simpa using hc) ?_
          rw [backend, hsub]
          rw [backend] at hfuel
          omega

end Loop

end RedisMgetCommand
end Yarmproxy

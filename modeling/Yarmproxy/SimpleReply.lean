import Yarmproxy.BackendConn
import Yarmproxy.CreateCommand
import Yarmproxy.RedisEncoding

/-! # Replies of one line or one bulk

The reply parser of the base class, and what it does with the received part of a reply. -/
namespace Yarmproxy

namespace BackendConn
variable {ε : Type}

def parseRedisSimpleReply (c : BackendConn ε) : Option (BackendConn ε × Bool) :=
  let unparsed := c.buffer.unparsedBytes
  if unparsed = 0 then
    some (if c.buffer.parsedUnreceivedBytes = 0 then c.setReplyRecvComplete else c, true)
  else
    let entry := c.buffer.unparsedData
    let mark := entry.rest.getD 0 0
    if mark ≠ ch ':' ∧ mark ≠ ch '+' ∧ mark ≠ ch '-' ∧ mark ≠ ch '$' then some (c, false)
    else match memchr entry.rest (ch '\n') unparsed with
      | none => some (c, true)
      | some p =>
        if mark = ch '$' then
          let bulk := Bulk.parse entry unparsed
          if bulk.presentSize < 0 then some (c, false)
          else if bulk.presentSize = 0 then some (c, true)
          else do
            let completed ← bulk.completed
            let total ← bulk.totalSize
            let c := if completed then c.setReplyRecvComplete else c
            some ({ c with buffer := c.buffer.updateParsedBytes total }, true)
        else
          some ({ c.setReplyRecvComplete with
            buffer := c.buffer.updateParsedBytes (p + 1) }, true)

def parseMemcSimpleReply (c : BackendConn ε) : Option (BackendConn ε × Bool) :=
  match memchr c.buffer.unparsedData.rest (ch '\n') c.buffer.unparsedBytes with
  | none => some (c, true)
  | some p =>
    some ({ c.setReplyRecvComplete with buffer := c.buffer.updateParsedBytes (p + 1) }, true)

/-- `Command::ParseReply` -/
def parseReply : ProtocolType → BackendConn ε → Option (BackendConn ε × Bool)
  | .redis => parseRedisSimpleReply
  | _ => parseMemcSimpleReply

/-- What `OnBackendRecoverableError` makes of the connection: `data` stands for its reply. -/
def substitute (c : BackendConn ε) (data : Bytes) : BackendConn ε :=
  ((c.setReplyData data true).setReplyRecvComplete).setNoRecycle

end BackendConn

/-- The replies of the two protocols that these commands can get. A text has no line feed;
a bulk is short enough to be counted in a `size_t`. -/
inductive IsReply : ProtocolType → Bytes → Prop where
  | line {mark : UInt8} {text : Bytes} :
    mark ∈ [ch '+', ch '-', ch ':'] → ch '\n' ∉ text → IsReply .redis (mark :: (text ++ crlf))
  | item {it : Item} : itemSize it < 2 ^ 63 → IsReply .redis (encodeItem it)
  | memc {text : Bytes} : ch '\n' ∉ text → IsReply .memcached (text ++ crlf)

theorem IsReply.ne_nil {p : ProtocolType} {reply : Bytes} (h : IsReply p reply) : reply ≠ [] := by
  cases h with
  | line => simp
  | @item it _ => cases it <;> simp [encodeItem, ascii]
  | memc => simp [crlf]

theorem memchr_line {body q m : Bytes} (hb : ch '\n' ∉ body) (hq : q <+: body ++ [ch '\n'])
    (hm : m.take q.length = q) :
    memchr m (ch '\n') q.length = if q = body ++ [ch '\n'] then some body.length else none := by
  have hlen : body.length < q.length ↔ q = body ++ [ch '\n'] := by
    constructor
    · intro h
      apply hq.eq_of_length_le
      rw [List.length_append, List.length_singleton]
      exact h
    · rintro rfl
      simp
  simp only [memchr_of_take hb hq hm, hlen]

namespace BackendConn
variable {ε : Type} {c : BackendConn ε} {reply : Bytes}

/-- The connection after a parse that recognised `reply`, of which the queue is the received
part. -/
def recognised (c : BackendConn ε) (reply : Bytes) : BackendConn ε :=
  { c with
    replyRecvComplete := c.replyRecvComplete || decide (c.buffer.queued = reply)
    buffer := c.buffer.updateParsedBytes reply.length }

theorem unparsedData_take (hv : c.buffer.Valid) (ha : c.buffer.ahead = 0) :
    c.buffer.unparsedData.rest.take c.buffer.queued.length = c.buffer.queued := by
  have h := ReadBuffer.unparsedData_bytes hv (n := c.buffer.queued.length) (by omega)
  rwa [Ptr.bytes, ha, List.drop_zero, List.take_length] at h

theorem mark_of_take {m q : Bytes} {mark : UInt8} {rest : Bytes} (hm : m.take q.length = q)
    (hq : q <+: mark :: rest) (hn : q ≠ []) : m.getD 0 0 = mark := by
  obtain ⟨x, q, rfl⟩ := List.exists_cons_of_ne_nil hn
  obtain ⟨rfl, -⟩ := List.cons_prefix_cons.mp hq
  cases m with
  | nil => simp at hm
  | cons y m =>
    simp only [List.length_cons, List.take_succ_cons, List.cons.injEq] at hm
    simpa using hm.1

theorem parseRedisSimpleReply_line {mark : UInt8} {text : Bytes} (hv : c.buffer.Valid)
    (ha : c.buffer.ahead = 0) (hmark : mark ∈ [ch '+', ch '-', ch ':'])
    (htext : ch '\n' ∉ text) (hq : c.buffer.queued <+: mark :: (text ++ crlf))
    (hn : c.buffer.queued ≠ []) :
    c.parseRedisSimpleReply = if c.buffer.queued = mark :: (text ++ crlf)
      then some (c.recognised (mark :: (text ++ crlf)), true) else some (c, true) := by
  have hm := unparsedData_take hv ha
  have h0 := mark_of_take hm hq hn
  have hu : c.buffer.unparsedBytes = c.buffer.queued.length := by
    rw [ReadBuffer.unparsedBytes_eq hv, ha, Nat.sub_zero]
  have hz : c.buffer.queued.length ≠ 0 := by simpa using hn
  have hb : ch '\n' ∉ mark :: (text ++ [ch '\r']) := by
    simp only [List.mem_cons, List.mem_append, List.not_mem_nil, or_false, not_or]
    refine ⟨?_, htext, by decide⟩
    rintro rfl
    exact absurd hmark (by decide)
  have he : mark :: (text ++ crlf) = (mark :: (text ++ [ch '\r'])) ++ [ch '\n'] := by
    simp [crlf, ch]
  have hl := memchr_line hb (he ▸ hq) hm
  have hd : mark ≠ ch '$' := by
    rintro rfl
    exact absurd hmark (by decide)
  have hk : ¬ (mark ≠ ch ':' ∧ mark ≠ ch '+' ∧ mark ≠ ch '-' ∧ mark ≠ ch '$') := by
    simp only [List.mem_cons, List.not_mem_nil, or_false] at hmark
    tauto
  simp only [parseRedisSimpleReply, hu, if_neg hz, h0, if_neg hk, hl, ← he]
  by_cases h : c.buffer.queued = mark :: (text ++ crlf)
  · simp only [if_pos h, if_neg hd]
    simp [recognised, setReplyRecvComplete, h, crlf]
  · simp only [if_neg h]

theorem lf_mem_of_header {it : Item} {q : Bytes} (hq : q <+: encodeItem it)
    (hl : headerSize it ≤ q.length) : ch '\n' ∈ q := by
  obtain ⟨t, ht⟩ := hq
  have key : (encodeItem it).take (headerSize it) = q.take (headerSize it) := by
    rw [← ht, List.take_append_of_le_length hl]
  apply List.mem_of_mem_take (i := headerSize it)
  rw [← key]
  cases it with
  | none => decide
  | some v => simp [encodeItem, headerSize, List.take_append]

theorem parseRedisSimpleReply_item {it : Item} (hv : c.buffer.Valid)
    (ha : c.buffer.ahead = 0) (hs : itemSize it < 2 ^ 63)
    (hq : c.buffer.queued <+: encodeItem it) (hn : c.buffer.queued ≠ []) :
    c.parseRedisSimpleReply = if c.buffer.queued.length < headerSize it
      then some (c, true) else some (c.recognised (encodeItem it), true) := by
  have hm := unparsedData_take hv ha
  obtain ⟨rest, hrest⟩ : ∃ rest, encodeItem it = ch '$' :: rest := by
    cases it with
    | none => exact ⟨_, rfl⟩
    | some v => exact ⟨_, rfl⟩
  have h0 : c.buffer.unparsedData.rest.getD 0 0 = ch '$' := mark_of_take hm (hrest ▸ hq) hn
  have hu : c.buffer.unparsedBytes = c.buffer.queued.length := by
    rw [ReadBuffer.unparsedBytes_eq hv, ha, Nat.sub_zero]
  have hz : c.buffer.queued.length ≠ 0 := by simpa using hn
  have hb : c.buffer.queued.length < 2 ^ 31 := by
    have := ReadBuffer.queued_length hv
    have := hv.received_size
    have := hv.size_bound
    omega
  have hle : c.buffer.queued.length ≤ itemSize it := hq.length_le
  have hr := ReadBuffer.unparsedData_rest_length hv
  have htake : c.buffer.unparsedData.rest.take c.buffer.queued.length =
      (encodeItem it ++ []).take c.buffer.queued.length := by
    rw [hm, List.append_nil]
    exact List.prefix_iff_eq_take.mp hq
  have hp := parseSize_item htake (by omega) (by omega) (by omega)
  have hk : ¬ (ch '$' ≠ ch ':' ∧ ch '$' ≠ ch '+' ∧ ch '$' ≠ ch '-' ∧ ch '$' ≠ ch '$') := by decide
  simp only [parseRedisSimpleReply, hu, if_neg hz, h0, if_neg hk]
  by_cases hh : c.buffer.queued.length < headerSize it
  · rw [if_pos hh] at hp ⊢
    split
    · rfl
    · simp [Bulk.parse, hp]
  · rw [if_neg hh] at hp ⊢
    rw [Nat.min_eq_left hle] at hp
    have hlf := lf_mem_of_header hq (by omega)
    obtain ⟨p, hpos⟩ : ∃ p, memchr c.buffer.unparsedData.rest (ch '\n')
        c.buffer.queued.length = some p := by
      rw [memchr, hm, ← Option.isSome_iff_exists, List.findIdx?_isSome, List.any_eq_true]
      exact ⟨_, hlf, by simp⟩
    have ht := totalOf_item htake (by omega) (show itemSize it < 2 ^ 64 by omega)
    have hbulk : Bulk.parse c.buffer.unparsedData c.buffer.queued.length =
        ⟨c.buffer.unparsedData, c.buffer.queued.length⟩ := by rw [Bulk.parse, hp]
    have habs := absentSize_item hb hs ht
    have hfull : c.buffer.queued = encodeItem it ↔ itemSize it - c.buffer.queued.length = 0 := by
      constructor
      · intro h
        rw [h, itemSize]
        omega
      · intro h
        exact hq.eq_of_length (by rw [itemSize] at hle h; omega)
    simp only [hpos, hbulk, if_true, if_neg (show ¬ ((c.buffer.queued.length : ℤ) < 0) by omega),
      if_neg (show ¬ ((c.buffer.queued.length : ℤ) = 0) by omega), Bulk.completed,
      if_pos (show ((c.buffer.queued.length : ℤ) > 0) by omega), habs, Bulk.totalSize, ht]
    simp only [Option.map_some, Option.bind_eq_bind, Option.bind_some, Option.some.injEq,
      Prod.mk.injEq, and_true, recognised]
    by_cases h : c.buffer.queued = encodeItem it
    · simp [h, setReplyRecvComplete, itemSize]
    · have hne : (itemSize it - c.buffer.queued.length == 0) = false :=
        beq_false_of_ne fun h0 => h (hfull.mpr h0)
      simp [hne, h]
      rfl

theorem parseMemcSimpleReply_line {text : Bytes} (hv : c.buffer.Valid)
    (ha : c.buffer.ahead = 0) (htext : ch '\n' ∉ text) (hq : c.buffer.queued <+: text ++ crlf) :
    c.parseMemcSimpleReply = if c.buffer.queued = text ++ crlf
      then some (c.recognised (text ++ crlf), true) else some (c, true) := by
  have hm := unparsedData_take hv ha
  have hu : c.buffer.unparsedBytes = c.buffer.queued.length := by
    rw [ReadBuffer.unparsedBytes_eq hv, ha, Nat.sub_zero]
  have hb : ch '\n' ∉ text ++ [ch '\r'] := by
    simp only [List.mem_append, List.mem_cons, List.not_mem_nil, or_false, not_or]
    exact ⟨htext, by decide⟩
  have he : text ++ crlf = (text ++ [ch '\r']) ++ [ch '\n'] := by simp [crlf, ch]
  have hl := memchr_line hb (he ▸ hq) hm
  rw [parseMemcSimpleReply, hu, hl, ← he]
  by_cases h : c.buffer.queued = text ++ crlf
  · simp only [if_pos h]
    simp [recognised, setReplyRecvComplete, h, crlf]
  · simp only [if_neg h]

theorem parseReply_begin {p : ProtocolType} (hv : c.buffer.Valid) (hr : IsReply p reply)
    (ha : c.buffer.ahead = 0) (hq : c.buffer.queued <+: reply) (hn : c.buffer.queued ≠ []) :
    (c.parseReply p = some (c, true) ∧ c.buffer.queued ≠ reply) ∨
    (c.parseReply p = some (c.recognised reply, true) ∧ reply.length < 2 ^ 63 ∧
      (p ≠ .redis → c.buffer.queued = reply)) := by
  have hb : c.buffer.queued.length < 2 ^ 63 := by
    have := ReadBuffer.queued_length hv
    have := hv.received_size
    have := hv.size_bound
    omega
  cases hr with
  | line hmark htext =>
    have h := parseRedisSimpleReply_line hv ha hmark htext hq hn
    split at h
    next he => exact Or.inr ⟨h, he ▸ hb, by simp⟩
    next hne => exact Or.inl ⟨h, hne⟩
  | @item it hs =>
    have h := parseRedisSimpleReply_item hv ha hs hq hn
    split at h
    next hlt =>
      refine Or.inl ⟨h, fun he => ?_⟩
      have hle := headerSize_le it
      rw [he] at hlt
      exact absurd hle (Nat.not_le_of_lt hlt)
    next => exact Or.inr ⟨h, hs, by simp⟩
  | memc htext =>
    have h := parseMemcSimpleReply_line hv ha htext hq
    split at h
    next he => exact Or.inr ⟨h, he ▸ hb, fun _ => he⟩
    next hne => exact Or.inl ⟨h, hne⟩

theorem parseReply_rest (hv : c.buffer.Valid) (ha : c.buffer.queued.length ≤ c.buffer.ahead) :
    c.parseReply .redis = some ({ c with
      replyRecvComplete :=
        c.replyRecvComplete || decide (c.buffer.ahead = c.buffer.queued.length) },
      true) := by
  have hu : c.buffer.unparsedBytes = 0 := by
    rw [ReadBuffer.unparsedBytes_eq hv]
    omega
  simp only [parseReply, parseRedisSimpleReply, hu, if_true, ReadBuffer.parsedUnreceivedBytes_eq hv]
  by_cases h : c.buffer.ahead = c.buffer.queued.length
  · simp [h, setReplyRecvComplete]
  · rw [if_neg (by omega)]
    simp [h]

end BackendConn
end Yarmproxy

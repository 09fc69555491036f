import Yarmproxy.MemcGetCommand
import Yarmproxy.Relay

/-! # Replies to a memcached `get`

A reply is a list of `VALUE` blocks and `END`. The parser advances from block to block over
whatever part of the reply has been received. -/
namespace Yarmproxy

/-- `VALUE <key> <flags> <bytes>`, possibly a unique number, and the data block. -/
structure ValueBlock where
  key : Bytes
  flags : Bytes
  extra : Bytes
  body : Bytes
  key_ne : key ≠ []
  key_text : ∀ c ∈ key, c ≠ ch ' ' ∧ c ≠ ch '\n'
  flags_text : ∀ c ∈ flags, c ≠ ch ' ' ∧ c ≠ ch '\n'
  extra_text : ch '\n' ∉ extra
  extra_head : ∀ c ∈ extra.head?, isDigit c = false

namespace ValueBlock

/-- The header line up to its line feed. -/
def header (v : ValueBlock) : Bytes :=
  ascii "VALUE " ++ (v.key ++ ch ' ' :: (v.flags ++ ch ' ' ::
    (dec v.body.length ++ (v.extra ++ [ch '\r']))))

def bytes (v : ValueBlock) : Bytes := v.header ++ ch '\n' :: (v.body ++ crlf)

variable {v : ValueBlock}

theorem length_bytes : v.bytes.length = v.header.length + 3 + v.body.length := by
  simp [bytes, crlf]
  omega

theorem lf_notMem_header : ch '\n' ∉ v.header := by
  intro h
  simp only [header, List.mem_append, List.mem_cons, List.not_mem_nil, or_false] at h
  rcases h with h | h | h | h | h | h | h | h
  · exact absurd h (by decide)
  · exact (v.key_text _ h).2 rfl
  · exact absurd h (by decide)
  · exact (v.flags_text _ h).2 rfl
  · exact absurd h (by decide)
  · exact isDigit_ne (dec_isDigit _ h) (by decide) rfl
  · exact v.extra_text h
  · exact absurd h (by decide)

theorem header_head : ∃ rest, v.header = ch 'V' :: rest := ⟨_, rfl⟩

end ValueBlock

def endLine : Bytes := ascii "END\r\n"

def valueBytes (vs : List ValueBlock) : Bytes := vs.flatMap ValueBlock.bytes

def memcReply (vs : List ValueBlock) : Bytes := valueBytes vs ++ endLine

namespace MemcGetCommand

theorem findIdx?_blank {a b : Bytes} (ha : ∀ c ∈ a, c ≠ ch ' ') :
    (a ++ ch ' ' :: b).findIdx? (· == ch ' ') = some a.length := by
  apply Lists.findIdx?_stops _ (by simp)
  intro c hc
  simpa using ha c hc

theorem secondField_eq {m a b rest : Bytes} {start : ℕ} (ha : ∀ c ∈ a, c ≠ ch ' ')
    (hb : ∀ c ∈ b, c ≠ ch ' ') :
    secondField m (a ++ ch ' ' :: (b ++ ch ' ' :: rest)) start =
      some ((stoi (m.drop (start + a.length + 1 + b.length + 1))).map intToSize) := by
  have hd : (a ++ ch ' ' :: (b ++ ch ' ' :: rest)).drop (a.length + 1) = b ++ ch ' ' :: rest := by
    rw [← List.drop_drop, List.drop_left]
    rfl
  simp only [secondField, findIdx?_blank ha, Option.bind_eq_bind, Option.bind_some, hd,
    findIdx?_blank hb]

theorem stoi_dec_large {n : ℕ} (hn : 2 ^ 31 ≤ n) {rest : Bytes}
    (hr : ∀ c ∈ rest.head?, isDigit c = false) : stoi (dec n ++ rest) = none := by
  rw [stoi, strtol_digits dec_isDigit (dec_ne_nil n) hr, digitsToNat_dec]
  simp only
  rw [if_neg (by omega)]

theorem parseReplyBodySize_header {v : ValueBlock} {m : Bytes}
    (hm : m.take (v.header.length + 1) = v.header ++ [ch '\n']) :
    parseReplyBodySize m v.header.length =
      if v.body.length < 2 ^ 31 then some v.body.length else none := by
  obtain ⟨k, key, hk⟩ := List.exists_cons_of_ne_nil v.key_ne
  have hkey : ∀ c ∈ key, c ≠ ch ' ' := fun c hc => (v.key_text c (by simp [hk, hc])).1
  have hflags : ∀ c ∈ v.flags, c ≠ ch ' ' := fun c hc => (v.flags_text c hc).1
  have htake : m.take v.header.length = v.header := by
    have := congrArg (List.take v.header.length) hm
    rwa [List.take_take, Nat.min_eq_left (by omega), List.take_left] at this
  have hline : (m.take v.header.length).drop 7 = key ++ ch ' ' :: (v.flags ++ ch ' ' ::
      (dec v.body.length ++ (v.extra ++ [ch '\r']))) := by
    rw [htake, ValueBlock.header, hk]
    rfl
  have hlen : ¬ v.header.length < 7 := by
    have : (v.header).length = 6 + (v.key ++ ch ' ' :: (v.flags ++ ch ' ' ::
        (dec v.body.length ++ (v.extra ++ [ch '\r'])))).length := by
      rw [ValueBlock.header, List.length_append]
      rfl
    rw [this, hk]
    simp
    omega
  have hnum : m.drop (7 + key.length + 1 + v.flags.length + 1) =
      dec v.body.length ++ (v.extra ++ [ch '\r', ch '\n'] ++ m.drop (v.header.length + 1)) := by
    conv_lhs => rw [← List.take_append_drop (v.header.length + 1) m, hm]
    have hsplit : v.header ++ [ch '\n'] = (ascii "VALUE " ++ (k :: key) ++ ch ' ' :: v.flags ++
        [ch ' ']) ++ (dec v.body.length ++ (v.extra ++ [ch '\r', ch '\n'])) := by
      simp [ValueBlock.header, hk]
    rw [hsplit, List.append_assoc, List.drop_left' (by simp [ascii]; omega)]
    simp
  have hhead : ∀ c ∈ (v.extra ++ [ch '\r', ch '\n'] ++ m.drop (v.header.length + 1)).head?,
      isDigit c = false := by
    intro c hc
    cases he : v.extra with
    | nil =>
      rw [he] at hc
      obtain rfl : ch '\r' = c := by simpa using hc
      decide
    | cons x xs =>
      rw [he] at hc
      obtain rfl : x = c := by simpa using hc
      exact v.extra_head x (by simp [he])
  rw [parseReplyBodySize, if_neg hlen, hline, secondField_eq hkey hflags, hnum]
  split
  next hb =>
    rw [stoi_dec hb hhead]
    simp [intToSize_natCast (show v.body.length < 2 ^ 64 by omega)]
  next hb =>
    rw [stoi_dec_large (Nat.le_of_not_lt hb) hhead]
    simp

/-- What is forwarded of a reply: the `END` of the last backend only. -/
def keptReply (last : Bool) (vs : List ValueBlock) : Bytes :=
  if last then memcReply vs else valueBytes vs

/-- The unread part of a stream behind a boundary that has been reached. -/
theorem exists_of_prefix_append {q a b : Bytes} (h : q <+: a ++ b) (hl : a.length ≤ q.length) :
    ∃ u, q = a ++ u ∧ u <+: b := by
  have ha : a <+: q := List.prefix_of_prefix_length_le (List.prefix_append _ _) h hl
  obtain ⟨u, rfl⟩ := ha
  exact ⟨u, rfl, (List.prefix_append_right_inj a).mp h⟩

section Parse
variable {ε : Type} {last : Bool} {forwarded : Bytes}

/-- What the parser makes of connection `c`, whose reply is to be `vs`: it stops at a block
boundary short of the end, or it has seen the whole reply. -/
inductive Parsed (last : Bool) (vs : List ValueBlock) (forwarded : Bytes) (c : BackendConn ε) :
    Option (BackendConn ε × Bool) → Prop where
  | raised : Parsed last vs forwarded c none
  | more {buffer parts rest} : vs = parts ++ rest → c.received ≠ memcReply vs →
    Relay c.received (valueBytes parts).length forwarded buffer →
    buffer.bufferSize = c.buffer.bufferSize →
    Parsed last vs forwarded c (some ({ c with buffer := buffer }, true))
  | complete {buffer} : c.received = memcReply vs →
    Relay (keptReply last vs) (keptReply last vs).length forwarded buffer →
    buffer.bufferSize = c.buffer.bufferSize →
    Parsed last vs forwarded c
      (some ({ c with buffer := buffer, replyRecvComplete := true }, true))

theorem lf_mem_memcReply (vs : List ValueBlock) : ch '\n' ∈ memcReply vs :=
  List.mem_append_right _ (by decide)

theorem memchr_none_of_notMem {m q : Bytes} (hm : m.take q.length = q) :
    memchr m (ch '\n') q.length = none ↔ ch '\n' ∉ q := by
  rw [memchr, hm, List.findIdx?_eq_none_iff]
  constructor
  · intro h hmem
    simpa using h _ hmem
  · intro h c hc
    simp only [beq_eq_false_iff_ne]
    rintro rfl
    exact h hc

theorem parseReplyLoop_end {c : BackendConn ε} {vs : List ValueBlock} {fuel : ℕ} {u : Bytes}
    (h : Relay c.received (valueBytes vs).length forwarded c.buffer)
    (hu : c.received = valueBytes vs ++ u) (hpre : u <+: endLine) (hlf : ch '\n' ∈ u)
    (hf : forwarded.length ≤ (valueBytes vs).length) :
    Parsed last vs forwarded c (parseReplyLoop last (fuel + 1) c) := by
  have hue : u = endLine := by
    rcases List.prefix_concat_iff.mp (show u <+: ascii "END\r" ++ [ch '\n'] from hpre) with h' | h'
    · exact h'
    · exact absurd (h'.subset hlf) (by decide)
  subst hue
  have hlen : c.received.length = (valueBytes vs).length + 5 := by
    rw [hu, List.length_append]
    rfl
  have hun : c.buffer.unparsedBytes = 5 := by
    rw [h.unparsedBytes]
    omega
  have hdata := (h.unparsedData (by omega)).1
  rw [hu, List.drop_left, ← hu, hlen, Nat.add_sub_cancel_left] at hdata
  have hget : ∀ i < 5, c.buffer.unparsedData.rest.getD i 0 = endLine.getD i 0 :=
    fun i hi => getD_of_take (n := 5) (by rw [hdata]; rfl) hi 0
  have hmem : memchr c.buffer.unparsedData.rest (ch '\n') 5 = some 4 := by
    rw [memchr, hdata]
    decide
  have h0 : c.buffer.unparsedData.rest.getD 0 0 ≠ ch 'V' := by
    rw [hget 0 (by decide)]
    decide
  have hall : c.received = memcReply vs := hu
  unfold parseReplyLoop
  simp only [hun, hmem, if_neg h0]
  rw [if_neg (by decide), if_pos ⟨hdata, trivial⟩]
  cases last with
  | true =>
    have hs := h.length_source
    have hp := h.updateParsedBytes (n := 5) (by omega)
    simp only [if_true]
    refine .complete hall ?_ rfl
    have hk : keptReply true vs = c.received := hall.symm
    rw [hk, hlen]
    exact hp
  | false =>
    have hc := h.cutReceivedTail (n := 5) (by omega)
    simp only [Bool.false_eq_true, if_false]
    refine .complete hall ?_ ReadBuffer.bufferSize_cutReceivedTail
    have hk : c.received.take (c.received.length - 5) = valueBytes vs := by
      rw [hlen, Nat.add_sub_cancel, hu, List.take_left]
    rw [hk] at hc
    exact hc

theorem Parsed.of_buffer {vs : List ValueBlock} {c : BackendConn ε} {b : ReadBuffer}
    {r : Option (BackendConn ε × Bool)} (hb : b.bufferSize = c.buffer.bufferSize)
    (h : Parsed last vs forwarded { c with buffer := b } r) : Parsed last vs forwarded c r := by
  cases h with
  | raised => exact .raised
  | more hvs hne hr hs => exact .more hvs hne hr (hs.trans hb)
  | complete hall hr hs => exact .complete hall hr (hs.trans hb)

theorem valueBytes_append (vs ws : List ValueBlock) :
    valueBytes (vs ++ ws) = valueBytes vs ++ valueBytes ws := List.flatMap_append

theorem Parsed.stop {c : BackendConn ε} {parts rest : List ValueBlock}
    (h : Relay c.received (valueBytes parts).length forwarded c.buffer)
    (hne : c.received ≠ memcReply (parts ++ rest)) :
    Parsed last (parts ++ rest) forwarded c (some (c, true)) :=
  @Parsed.more _ _ _ _ _ c.buffer _ _ rfl hne h rfl

theorem parseReplyLoop_block {c : BackendConn ε} {parts : List ValueBlock} {v : ValueBlock}
    {u t : Bytes} (last : Bool) (fuel : ℕ)
    (h : Relay c.received (valueBytes parts).length forwarded c.buffer)
    (hu : c.received = valueBytes parts ++ u) (hpre : u <+: v.bytes ++ t)
    (hlf : ch '\n' ∈ u) :
    parseReplyLoop last (fuel + 1) c = none ∨
      ∃ b, parseReplyLoop last (fuel + 1) c = parseReplyLoop last fuel { c with buffer := b } ∧
        Relay c.received (valueBytes (parts ++ [v])).length forwarded b ∧
        b.bufferSize = c.buffer.bufferSize := by
  have hlen : c.received.length = (valueBytes parts).length + u.length := by
    rw [hu, List.length_append]
  have hun : c.buffer.unparsedBytes = u.length := by
    rw [h.unparsedBytes]
    omega
  have hdata := (h.unparsedData (by omega)).1
  rw [hlen, Nat.add_sub_cancel_left] at hdata
  conv at hdata => rhs; rw [hu, List.drop_left]
  have hpre' : u <+: v.header ++ ch '\n' :: (v.body ++ crlf ++ t) := by
    simpa [ValueBlock.bytes] using hpre
  have hmem := memchr_of_take v.lf_notMem_header hpre' hdata
  have hlong : v.header.length < u.length := by
    by_contra hshort
    rw [if_neg hshort, memchr_none_of_notMem hdata] at hmem
    exact hmem hlf
  rw [if_pos hlong] at hmem
  have hm : c.buffer.unparsedData.rest.take (v.header.length + 1) = v.header ++ [ch '\n'] := by
    have := congrArg (List.take (v.header.length + 1)) hdata
    rw [List.take_take, Nat.min_eq_left (by omega)] at this
    rw [this]
    obtain ⟨r, hr⟩ := hpre'
    have ht := congrArg (List.take (v.header.length + 1)) hr
    rw [List.take_append_of_le_length (by omega)] at ht
    rw [ht, List.take_length_add_append]
    rfl
  have h0 : c.buffer.unparsedData.rest.getD 0 0 = ch 'V' := by
    obtain ⟨rest, hrest⟩ := v.header_head
    rw [getD_of_take (n := v.header.length + 1) (e := v.header ++ [ch '\n'])
      (by rw [hm, List.take_of_length_le (by simp)]) (by omega), hrest]
    rfl
  have hz : ¬ u.length = 0 := by omega
  have hstep : parseReplyLoop last (fuel + 1) c =
      (if v.body.length < 2 ^ 31 then some v.body.length else none).bind fun body =>
        parseReplyLoop last fuel { c with
          buffer := c.buffer.updateParsedBytes (addSize (v.header.length + 1 + 2) body) } := by
    rw [parseReplyLoop]
    simp only [hun, if_neg hz, hmem, h0, if_true, parseReplyBodySize_header hm]
    rfl
  rw [hstep]
  have hs := h.length_source
  have hp := h.parsed
  by_cases hb : v.body.length < 2 ^ 31
  · right
    have hadd : addSize (v.header.length + 1 + 2) v.body.length = v.bytes.length := by
      rw [addSize_eq (by omega), ValueBlock.length_bytes]
    have hpos : (valueBytes (parts ++ [v])).length =
        (valueBytes parts).length + v.bytes.length := by
      rw [valueBytes_append, List.length_append]
      simp [valueBytes]
    refine ⟨c.buffer.updateParsedBytes v.bytes.length, ?_, ?_, rfl⟩
    · rw [if_pos hb, Option.bind_some, hadd]
    · rw [hpos]
      apply h.updateParsedBytes
      rw [ValueBlock.length_bytes]
      omega
  · left
    rw [if_neg hb]
    rfl

theorem parseReplyLoop_parsed (fuel : ℕ) :
    ∀ {c : BackendConn ε} {parts rest : List ValueBlock},
      Relay c.received (valueBytes parts).length forwarded c.buffer →
      c.received <+: memcReply (parts ++ rest) → c.buffer.unparsedBytes ≤ fuel →
      Parsed last (parts ++ rest) forwarded c (parseReplyLoop last fuel c) := by
  have idle : ∀ {c : BackendConn ε} {parts rest : List ValueBlock},
      Relay c.received (valueBytes parts).length forwarded c.buffer →
      c.buffer.unparsedBytes = 0 → Parsed last (parts ++ rest) forwarded c (some (c, true)) := by
    intro c parts rest h hz
    refine Parsed.stop h fun he => ?_
    rw [h.unparsedBytes, he, memcReply, valueBytes_append] at hz
    simp only [List.length_append] at hz
    have : endLine.length = 5 := rfl
    omega
  induction fuel with
  | zero =>
    intro c parts rest h _ hfuel
    have hz : c.buffer.unparsedBytes = 0 := by omega
    rw [parseReplyLoop, if_pos hz]
    exact idle h hz
  | succ fuel ih =>
    intro c parts rest h hans hfuel
    by_cases hz : c.buffer.unparsedBytes = 0
    · rw [parseReplyLoop]
      simp only [hz, if_true]
      exact idle h hz
    have hpos : (valueBytes parts).length < c.received.length := by
      rw [h.unparsedBytes] at hz
      omega
    obtain ⟨u, hu, hpre⟩ := exists_of_prefix_append (q := c.received) (a := valueBytes parts)
      (b := memcReply rest) (by simpa [memcReply, valueBytes_append] using hans) (by omega)
    by_cases hlf : ch '\n' ∈ u
    · cases rest with
      | nil =>
        rw [List.append_nil]
        exact parseReplyLoop_end h hu hpre hlf (by have := h.parsed; omega)
      | cons v rest =>
        have hpre' : u <+: v.bytes ++ memcReply rest := by
          simpa [memcReply, valueBytes] using hpre
        rcases parseReplyLoop_block last fuel h hu hpre' hlf with
          hnone | ⟨b, hstep, hb, hsize⟩
        · rw [hnone]
          exact .raised
        · rw [hstep]
          have hsplit : parts ++ v :: rest = (parts ++ [v]) ++ rest := by simp
          rw [hsplit] at hans ⊢
          refine Parsed.of_buffer hsize (ih hb hans ?_)
          have hun := h.unparsedBytes
          rw [hb.unparsedBytes, valueBytes_append, List.length_append]
          have : (valueBytes [v]).length = v.header.length + 3 + v.body.length := by
            simp [valueBytes, ValueBlock.length_bytes]
          omega
    · have hlen : c.received.length = (valueBytes parts).length + u.length := by
        rw [hu, List.length_append]
      have hun : c.buffer.unparsedBytes = u.length := by
        rw [h.unparsedBytes]
        omega
      have hdata := (h.unparsedData (by omega)).1
      rw [hlen, Nat.add_sub_cancel_left] at hdata
      conv at hdata => rhs; rw [hu, List.drop_left]
      have hmem := (memchr_none_of_notMem hdata).mpr hlf
      rw [parseReplyLoop]
      simp only [hun, if_neg (hun ▸ hz), hmem]
      refine Parsed.stop h fun he => hlf ?_
      rw [hu, memcReply, valueBytes_append, List.append_assoc] at he
      rw [List.append_cancel_left he]
      exact lf_mem_memcReply rest

end Parse

end MemcGetCommand
end Yarmproxy

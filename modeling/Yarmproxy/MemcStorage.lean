import Yarmproxy.Commands
import Yarmproxy.MemcLine

/-! # Storage requests

`<verb> key flags exptime bytes\r\n` and its data block. `MemcSetCommand::ParseQuery` takes the
last word of the line for the byte count and adds the two bytes of the line end to it as an
`int`; `CreateCommand` refuses a sum of at most two. -/
namespace Yarmproxy

def IsWord (w : Bytes) : Prop := w ≠ [] ∧ ∀ c ∈ w, isSpace c = false

instance (w : Bytes) : Decidable (IsWord w) :=
  decidable_of_iff (w ≠ [] ∧ w.all (fun c => !isSpace c) = true) (by simp [IsWord])

theorem IsWord.isKey {w : Bytes} (h : IsWord w) : IsKey w := by
  refine ⟨h.1, fun c hc => ?_⟩
  have hs := h.2 c hc
  refine ⟨?_, ?_, ?_⟩ <;> rintro rfl <;> exact absurd hs (by decide)

def storageVerbs : List Bytes :=
  [ascii "set", ascii "add", ascii "replace", ascii "append", ascii "prepend"]

/-- A storage line; `cas` has a unique number behind the byte count. -/
structure StorageLine where
  verb : Bytes
  key : Bytes
  flags : Bytes
  exptime : Bytes
  count : Bytes
  unique : Option Bytes
  verb_mem : verb ∈ storageVerbs ∧ unique = none ∨ verb = ascii "cas" ∧ unique.isSome
  words : ∀ w ∈ [key, flags, exptime, count] ++ unique.toList, IsWord w

namespace StorageLine

def tokens (l : StorageLine) : List Bytes := [l.key, l.flags, l.exptime, l.count] ++ l.unique.toList

def text (l : StorageLine) : Bytes := requestLine l.verb l.tokens

def last (l : StorageLine) : Bytes := l.unique.getD l.count

end StorageLine

theorem takeWhile_isDigit_line (l rest : Bytes) :
    (l ++ ch '\r' :: rest).takeWhile isDigit = l.takeWhile isDigit := by
  have hcr : isDigit (ch '\r') = false := by decide
  rw [List.takeWhile_append, List.takeWhile_cons, hcr]
  split
  next h => simpa using (List.takeWhile_prefix isDigit).eq_of_length h |>.symm
  next => rfl

theorem strtol_word {w : Bytes} (hw : IsWord w) (rest : Bytes) :
    strtol (w ++ ch '\r' :: rest) = strtol w := by
  obtain ⟨c, cs, rfl⟩ := List.exists_cons_of_ne_nil hw.1
  have hc := hw.2 c (by simp)
  have hcs := takeWhile_isDigit_line cs rest
  have hccs := takeWhile_isDigit_line (c :: cs) rest
  simp only [List.cons_append] at hccs ⊢
  simp only [strtol, List.dropWhile_cons, hc]
  simp only [Bool.false_eq_true, if_false, apply_ite (List.takeWhile isDigit), hcs, hccs]

theorem atoi_word {w : Bytes} (hw : IsWord w) (rest : Bytes) :
    atoi (w ++ ch '\r' :: rest) = atoi w := by
  rw [atoi, strtol_word hw, atoi]

theorem atoi_bounds (bs : Bytes) : -2 ^ 31 ≤ atoi bs ∧ atoi bs < 2 ^ 31 := by
  unfold atoi
  split
  next => decide
  next =>
    exact ⟨Int.le_bmod (by decide), Int.bmod_lt (by decide)⟩

/-- The number a word of digits stands for. -/
def Decimal (w : Bytes) (n : ℕ) : Prop := (∀ c ∈ w, isDigit c = true) ∧ digitsToNat 0 w = n

instance (w : Bytes) (n : ℕ) : Decidable (Decimal w n) :=
  decidable_of_iff (w.all isDigit = true ∧ digitsToNat 0 w = n) (by simp [Decimal])

theorem Decimal.strtol {w : Bytes} {n : ℕ} (h : Decimal w n) (hw : w ≠ []) :
    strtol w = some (n : ℤ) := by
  have hs : Yarmproxy.strtol (w ++ []) = _ := strtol_digits h.1 hw (by simp)
  rwa [List.append_nil, h.2] at hs

theorem Decimal.atoi {w : Bytes} {n : ℕ} (h : Decimal w n) (hw : w ≠ []) (hn : n < 2 ^ 31) :
    atoi w = n := by
  rw [Yarmproxy.atoi, h.strtol hw]
  simp only
  have hclip : max (-2 ^ 63) (min (n : ℤ) (2 ^ 63 - 1)) = n := by omega
  rw [hclip, Int.bmod_eq_of_le] <;> omega

theorem Decimal.atoi_saturated {w : Bytes} {n : ℕ} (h : Decimal w n) (hw : w ≠ [])
    (hn : 2 ^ 63 ≤ n) : Yarmproxy.atoi w = -1 := by
  rw [Yarmproxy.atoi, h.strtol hw]
  simp only
  have hclip : max (-2 ^ 63) (min (n : ℤ) (2 ^ 63 - 1)) = 2 ^ 63 - 1 := by omega
  rw [hclip]
  decide

/-- `ParseQuery` adds the line end to the number `v` as an `int`. -/
def bodySum (v : ℤ) : ℤ := Int.bmod (v + 2) (2 ^ 32)

section BodySum
variable {v : ℤ}

theorem bodySum_eq (h : -2 ^ 31 ≤ v) (h' : v < 2 ^ 31) :
    bodySum v = if v + 2 < 2 ^ 31 then v + 2 else v + 2 - 2 ^ 32 := by
  unfold bodySum
  split
  next => rw [Int.bmod_eq_of_le] <;> omega
  next => rw [← Int.sub_bmod_right, Int.bmod_eq_of_le] <;> omega

theorem bodySum_le_two_iff (h : -2 ^ 31 ≤ v) (h' : v < 2 ^ 31) :
    intToSize (bodySum v) ≤ 2 ↔ -2 ≤ v ∧ v ≤ 0 := by
  rw [bodySum_eq h h', intToSize]
  split <;> omega

theorem bodySum_framed_iff {len n : ℕ} (h : -2 ^ 31 ≤ v) (h' : v < 2 ^ 31) (hlen : len < 2 ^ 63) :
    2 < intToSize (bodySum v) ∧ addSize len (intToSize (bodySum v)) = len + n + 2 ↔
      1 ≤ n ∧ (n + 2 < 2 ^ 31 ∧ v = n ∨
        len + n + 2 < 2 ^ 64 ∧ bodySum v < 0 ∧ bodySum v = (n + 2 : ℤ) - 2 ^ 64) := by
  rw [bodySum_eq h h', intToSize, addSize]
  split <;> omega

end BodySum

theorem scan_lastWord {buf : Ptr} {verb w rest : Bytes} {init : List Bytes} (hw : IsKey w)
    (hrest : buf.rest = requestLine verb (init ++ [w]) ++ rest) :
    (buf.mem.take (buf.off + (requestLine verb (init ++ [w])).length - 2)).reverse.findIdx?
      (· == ch ' ') = some w.length ∧
    buf.mem.drop (buf.off + (requestLine verb (init ++ [w])).length - 2 - w.length) =
      w ++ ch '\r' :: (ch '\n' :: rest) := by
  obtain ⟨front, hfront⟩ : ∃ front, requestLine verb (init ++ [w]) = front ++
      ch ' ' :: (w ++ crlf) := by
    refine ⟨verb ++ spaced init, ?_⟩
    rw [requestLine, spaced_append]
    simp
  obtain ⟨pre, hpre, hmem⟩ := Ptr.exists_mem_eq (show buf.rest ≠ [] by rw [hrest, hfront]; simp)
  rw [hrest, hfront] at hmem
  have hsplit : buf.mem = (pre ++ front ++ ch ' ' :: w) ++ (crlf ++ rest) := by simp [hmem]
  have hlen : buf.off + (requestLine verb (init ++ [w])).length - 2 =
      (pre ++ front ++ ch ' ' :: w).length := by
    simp only [hfront, List.length_append, List.length_cons, List.length_nil, hpre, crlf]
    omega
  generalize pre ++ front = a at hsplit hlen
  rw [hlen, hsplit]
  constructor
  · rw [List.take_left, List.reverse_append, List.reverse_cons, List.append_assoc,
      ← List.length_reverse]
    apply Lists.findIdx?_stops _ (by simp)
    intro c hc
    simpa using (hw.plain c (List.mem_reverse.mp hc)).1
  · have hback : (a ++ ch ' ' :: w).length - w.length = a.length + 1 := by
      simp only [List.length_append, List.length_cons]
      omega
    rw [hback, List.append_assoc, ← List.drop_drop, List.drop_left]
    rfl

theorem memcSetParseQuery_lastWord {buf : Ptr} {verb w rest key : Bytes} {init : List Bytes} {n : ℕ}
    (hw : IsWord w) (hrest : buf.rest = requestLine verb (init ++ [w]) ++ rest)
    (h : memcSetParseQuery buf (requestLine verb (init ++ [w])).length = some (key, n)) :
    n = intToSize (bodySum (atoi w)) := by
  obtain ⟨hstart, hcount⟩ := scan_lastWord hw.isKey hrest
  obtain ⟨p, -, h⟩ := Option.bind_eq_some_iff.mp h
  obtain ⟨q, -, h⟩ := Option.bind_eq_some_iff.mp h
  dsimp only at h
  rw [hstart, Option.bind_eq_bind, Option.bind_some, hcount, atoi_word hw] at h
  exact (Prod.mk.inj (Option.some.inj h)).2.symm

namespace StorageLine
variable (l : StorageLine)

theorem tokens_split : ∃ init, l.tokens = l.key :: (init ++ [l.last]) := by
  cases hu : l.unique with
  | none => exact ⟨[l.flags, l.exptime], by simp [tokens, last, hu]⟩
  | some u => exact ⟨[l.flags, l.exptime, l.count], by simp [tokens, last, hu]⟩

theorem isWord_last : IsWord l.last := by
  obtain ⟨init, hinit⟩ := l.tokens_split
  refine l.words _ (?_ : l.last ∈ l.tokens)
  rw [hinit]
  simp

theorem isWord_key : IsWord l.key := l.words _ (by simp)

theorem isKey_of_mem {w : Bytes} (hw : w ∈ l.tokens) : IsKey w := (l.words w hw).isKey

theorem verb_known :
    l.verb ∈ memcCommandNames.map Prod.fst ∧ memcCommandNames.lookup l.verb = some .set := by
  rcases l.verb_mem with ⟨hv, -⟩ | ⟨hv, -⟩
  · revert hv
    generalize l.verb = v
    revert v
    decide
  · rw [hv]
    decide

variable {l} {buf : Ptr} {rest : Bytes}

theorem scan_key (hrest : buf.rest = l.text ++ rest) :
    skipPast (ch ' ') buf.rest = some (l.verb.length + 1) ∧
    (buf.rest.drop (l.verb.length + 1 + 1)).findIdx? (· == ch ' ') = some (l.key.length - 1) ∧
    (buf.rest.drop (l.verb.length + 1)).take (l.key.length - 1 + 1) = l.key := by
  obtain ⟨init, hinit⟩ := l.tokens_split
  obtain ⟨k, ks, hk⟩ := List.exists_cons_of_ne_nil l.isWord_key.1
  obtain ⟨w, ws, hw⟩ := List.exists_cons_of_ne_nil (show init ++ [l.last] ≠ [] by simp)
  have hm : buf.rest =
      l.verb ++ ch ' ' :: (k :: (ks ++ ch ' ' :: (w ++ spaced ws ++ crlf ++ rest))) := by
    rw [hrest, text, requestLine, hinit, hw, hk]
    simp
  have hdrop : buf.rest.drop (l.verb.length + 1) =
      k :: (ks ++ ch ' ' :: (w ++ spaced ws ++ crlf ++ rest)) := by
    rw [hm, ← List.drop_drop, List.drop_left]
    rfl
  have hlen : l.key.length - 1 = ks.length := by simp [hk]
  refine ⟨?_, ?_, ?_⟩
  · rw [skipPast, hm, Lists.findIdx?_stops _ (by simp)]
    · rfl
    · intro c hc
      simp only [beq_eq_false_iff_ne]
      rintro rfl
      exact (verb_plain _ l.verb_known.1).1 hc
  · rw [← List.drop_drop, hdrop, List.drop_one, List.tail_cons, hlen]
    apply Lists.findIdx?_stops _ (by simp)
    intro c hc
    simpa using (l.isWord_key.isKey.plain c (by simp [hk, hc])).1
  · rw [hdrop, hlen, List.take_succ_cons, List.take_left, hk]

theorem scan_last (hrest : buf.rest = l.text ++ rest) :
    (buf.mem.take (buf.off + l.text.length - 2)).reverse.findIdx? (· == ch ' ') =
      some l.last.length ∧
    buf.mem.drop (buf.off + l.text.length - 2 - l.last.length) =
      l.last ++ ch '\r' :: (ch '\n' :: rest) := by
  obtain ⟨init, hinit⟩ := l.tokens_split
  have htext : l.text = requestLine l.verb ((l.key :: init) ++ [l.last]) := by rw [text, hinit]; rfl
  rw [htext] at hrest ⊢
  exact scan_lastWord l.isWord_last.isKey hrest

theorem memcSetParseQuery_text (hrest : buf.rest = l.text ++ rest) :
    memcSetParseQuery buf l.text.length = some (l.key, intToSize (bodySum (atoi l.last))) := by
  obtain ⟨hblank, hend, hkey⟩ := scan_key hrest
  obtain ⟨hstart, hcount⟩ := scan_last hrest
  simp only [memcSetParseQuery, hblank, Option.bind_eq_bind, Option.bind_some, hend, hkey, hstart,
    hcount, atoi_word l.isWord_last]
  rfl

theorem createCommand_text {size : ℕ} (bufferSize : ℕ) (hrest : buf.rest = l.text ++ rest)
    (hs : l.text.length ≤ size) :
    createCommand bufferSize buf size =
      if intToSize (bodySum (atoi l.last)) ≤ 2 then
        some (l.text.length,
          some (.error (ascii "ERR Protocol Error:[" ++ l.text ++ ascii "]\r\n")))
      else some (addSize l.text.length (intToSize (bodySum (atoi l.last))),
        some (.memcSet l.key)) := by
  have htype : getMemcCommandType l.text = .set := by
    rw [text, getMemcCommandType_requestLine (verb_plain _ l.verb_known.1).1 (by simp [tokens]),
      l.verb_known.2]
    rfl
  have hbytes : buf.bytes l.text.length = l.text := bytes_requestLine hrest
  have hmemc : createCommand bufferSize buf size = createMemc buf size l.text.length :=
    createCommand_requestLine bufferSize l.verb_known.1 (fun w hw => l.isKey_of_mem hw) hrest hs
  simp only [hmemc, createMemc, hbytes, htype, memcSetParseQuery_text hrest, Option.bind_eq_bind,
    Option.bind_some]

end StorageLine

/-- Whatever the locator and the pool, the command talks to the endpoint of `key`. -/
def ForwardedTo (key : Bytes) (created : Created) : Prop :=
  ∀ (ε : Type) [DecidableEq ε] [Inhabited ε] (env : AnyCommand.Env ε) (k : ℕ) (buffer : ReadBuffer),
    ∃ c : SingleCommand ε, AnyCommand.construct env k buffer created = some (buffer, .single c) ∧
      c.backend.remoteEndpoint = env.locate .memcached key

theorem forwardedTo_memcSet (key : Bytes) : ForwardedTo key (.memcSet key) :=
  fun _ _ _ _ _ _ => ⟨_, rfl, rfl⟩

namespace StorageLine

/-- The line and a data block of `n` bytes are consumed, and forwarded by the key. -/
def Framed (l : StorageLine) (bufferSize : ℕ) (buf : Ptr) (size n : ℕ) : Prop :=
  ∃ created, createCommand bufferSize buf size = some (l.text.length + n + 2, some created) ∧
    ForwardedTo l.key created

/-- The line is answered by an error command and nothing else is consumed. -/
def Refused (l : StorageLine) (bufferSize : ℕ) (buf : Ptr) (size : ℕ) : Prop :=
  ∃ reply, createCommand bufferSize buf size = some (l.text.length, some (.error reply))

/-- The byte count is a decimal number that `int` arithmetic can hold with its line end. -/
def InRange (l : StorageLine) : Prop := ∃ n, Decimal l.count n ∧ n + 2 < 2 ^ 31

/-- What the last word must be for a data block of `n` bytes. The second alternative needs a
block of almost 2^64 bytes. -/
def Counts (l : StorageLine) (n : ℕ) : Prop :=
  1 ≤ n ∧ (n + 2 < 2 ^ 31 ∧ atoi l.last = n ∨
    l.text.length + n + 2 < 2 ^ 64 ∧ bodySum (atoi l.last) < 0 ∧
      bodySum (atoi l.last) = (n + 2 : ℤ) - 2 ^ 64)

variable {l : StorageLine} {buf : Ptr} {size : ℕ} {rest : Bytes}

theorem counts_iff_of_unique_none {n : ℕ} (hu : l.unique = none) (hd : Decimal l.count n) :
    l.Counts n ↔ 1 ≤ n ∧ n + 2 < 2 ^ 31 := by
  have hne : l.count ≠ [] := (l.words l.count (by simp)).1
  have hlast : l.last = l.count := by rw [last, hu, Option.getD_none]
  rw [Counts, hlast]
  constructor
  · rintro ⟨hn, ⟨hr, -⟩ | ⟨-, hneg, hsum⟩⟩
    · exact ⟨hn, hr⟩
    · -- a block that large makes `atoi` saturate, which leaves the sum positive
      obtain ⟨hlow, hhigh⟩ := atoi_bounds l.count
      have hbig : 2 ^ 63 ≤ n := by
        rw [bodySum_eq hlow hhigh] at hsum
        split at hsum <;> omega
      rw [hd.atoi_saturated hne hbig] at hneg
      exact absurd hneg (by decide)
  · rintro ⟨hn, hr⟩
    exact ⟨hn, Or.inl ⟨hr, hd.atoi hne (by omega)⟩⟩

theorem framed_iff_counts (bufferSize n : ℕ) (hrest : buf.rest = l.text ++ rest)
    (hs : l.text.length ≤ size) (hlen : l.text.length < 2 ^ 63) :
    l.Framed bufferSize buf size n ↔ l.Counts n := by
  obtain ⟨hlow, hhigh⟩ := atoi_bounds l.last
  rw [Counts, ← bodySum_framed_iff hlow hhigh hlen, Framed, createCommand_text bufferSize hrest hs]
  split
  next hle =>
    constructor
    · rintro ⟨_, he, _⟩
      have := (Prod.mk.inj (Option.some.inj he)).1
      omega
    · omega
  next hgt =>
    simp only [Option.some.injEq, Prod.mk.injEq]
    constructor
    · rintro ⟨_, ⟨he, _⟩, _⟩
      exact ⟨by omega, he⟩
    · rintro ⟨_, he⟩
      exact ⟨_, ⟨he, rfl⟩, forwardedTo_memcSet l.key⟩

theorem refused_iff (bufferSize : ℕ) (hrest : buf.rest = l.text ++ rest)
    (hs : l.text.length ≤ size) :
    l.Refused bufferSize buf size ↔ -2 ≤ atoi l.last ∧ atoi l.last ≤ 0 := by
  obtain ⟨hlow, hhigh⟩ := atoi_bounds l.last
  rw [← bodySum_le_two_iff hlow hhigh, Refused, createCommand_text bufferSize hrest hs]
  split
  next hle => simp [hle]
  next hgt => simp [hgt]

end StorageLine

def setLine (count : Bytes) (h : IsWord count) : StorageLine where
  verb := ascii "set"
  key := ascii "k"
  flags := ascii "0"
  exptime := ascii "0"
  count := count
  unique := none
  verb_mem := by decide
  words := by
    intro w hw
    simp only [Option.toList_none, List.append_nil, List.mem_cons, List.not_mem_nil, or_false] at hw
    rcases hw with rfl | rfl | rfl | rfl
    · decide
    · decide
    · decide
    · exact h

def setFive : Ptr := ⟨ascii "set k 0 0 5\r\nhello\r\n", 0⟩

def setNone : Ptr := ⟨ascii "set k 0 0 0\r\n\r\n", 0⟩

def setNegative : Ptr := ⟨ascii "set k 0 0 -10\r\n", 0⟩

def casFive : Ptr := ⟨ascii "cas k 0 0 5 7\r\nhello\r\n", 0⟩

end Yarmproxy

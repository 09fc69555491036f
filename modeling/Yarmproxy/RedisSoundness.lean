import Yarmproxy.RedisArrays

/-! # What the parser accepts

The parser checks the first line of an array, the dollar sign of every bulk and the line end of
its header. It does not look at the characters of a bulk header nor at the two bytes behind a
payload. An accepted array is an encoding exactly when these pass the checks left out. -/
namespace Yarmproxy

/-- One bulk in the grammar of the protocol: nil, or a byte string behind its length. -/
def CanonicalBulk (bs : Bytes) : Prop :=
  bs = ascii "$-1\r\n" ∨ ∃ ds payload, ds ≠ [] ∧ (∀ c ∈ ds, isDigit c = true) ∧
    digitsToNat 0 ds = payload.length ∧ bs = ch '$' :: (ds ++ crlf ++ payload ++ crlf)

namespace Bulk

def raw (b : Bulk) : Bytes := b.rawData.bytes (b.totalSize.getD 0)

def isNil (b : Bulk) : Bool := b.rawData.rest.getD 1 0 = ch '-'

def headerText (b : Bulk) : Bytes := (b.rawData.rest.drop 1).takeWhile (· ≠ ch '\r')

/-- The checks of a byte string that the parser leaves out. -/
structure Strict (b : Bulk) : Prop where
  nonempty : b.headerText ≠ []
  digits : ∀ c ∈ b.headerText, isDigit c = true
  bound : digitsToNat 0 b.headerText < 2 ^ 31
  trailer : (b.rawData.rest.drop (b.headerText.length + 3 + digitsToNat 0 b.headerText)).take 2 =
    crlf

end Bulk

/-- An array that is parsed without error, to its end and with a bulk at least. -/
structure Accepted (data : Ptr) (n : ℕ) (ba : BulkArray) : Prop where
  /-- an allocation is smaller than half the address space -/
  memory : data.mem.length < 2 ^ 63
  within : n ≤ data.rest.length
  parsed : BulkArray.parse data n = some ba
  noError : 0 ≤ ba.parsedSize
  completed : ba.completed = some true
  nonempty : 1 ≤ ba.presentBulks

/-- The bytes of the array are the encoding of its bulks, and the sizes reported for each of
them agree. -/
structure Sound (data : Ptr) (ba : BulkArray) : Prop where
  encoding : ∃ total count, ba.totalSize = some total ∧ count ≠ [] ∧
    (∀ c ∈ count, isDigit c = true) ∧ digitsToNat 0 count = ba.presentBulks ∧
    data.bytes total = ch '*' :: (count ++ crlf ++ ba.items.flatMap Bulk.raw)
  canonical : ∀ b ∈ ba.items, CanonicalBulk b.raw
  sizes : ∀ b ∈ ba.items, b.isNil = false → ∃ header, b.payloadOffset = some header ∧
    b.totalSize = some (header + b.payloadSize + 2)

section OneBulk
variable {m : Bytes} {n : ℕ}

theorem scanHeader_eq (bytes : ℕ) : ∀ (l : Bytes) (k t : ℕ), k ≤ bytes → bytes ≤ k + l.length →
    scanHeader bytes l k t =
      (k + ((l.take (bytes - k)).takeWhile (· ≠ ch '\r')).length,
        ((l.take (bytes - k)).takeWhile (· ≠ ch '\r')).foldl accDigit t) := by
  intro l
  induction l with
  | nil => intro k t _ _; simp [scanHeader]
  | cons c l ih =>
    intro k t hk hl
    rw [scanHeader]
    by_cases h : c ≠ ch '\r' ∧ k < bytes
    · rw [if_pos h, ih (k + 1) (accDigit t c) (by omega) (by simp at hl; omega)]
      obtain ⟨j, hj⟩ : ∃ j, bytes - k = j + 1 := ⟨bytes - k - 1, by omega⟩
      have hj' : bytes - (k + 1) = j := by omega
      rw [hj, hj', List.take_succ_cons, List.takeWhile_cons_of_pos (by simp [h.1]),
        List.length_cons, List.foldl_cons]
      congr 1
      omega
    · rw [if_neg h]
      by_cases hb : k < bytes
      · obtain ⟨j, hj⟩ : ∃ j, bytes - k = j + 1 := ⟨bytes - k - 1, by omega⟩
        have hc : c = ch '\r' := by
          by_contra hne
          exact h ⟨hne, hb⟩
        rw [hj, List.take_succ_cons, List.takeWhile_cons_of_neg (by simp [hc])]
        simp
      · rw [show bytes - k = 0 by omega]
        simp

theorem scanTotal_eq : ∀ (l : Bytes) (k t : ℕ), scanTotal l k t =
    if ch '\r' ∈ l then some (k + (l.takeWhile (· ≠ ch '\r')).length,
      (l.takeWhile (· ≠ ch '\r')).foldl accDigit t) else none := by
  intro l
  induction l with
  | nil => intro k t; simp [scanTotal]
  | cons c l ih =>
    intro k t
    rw [scanTotal]
    by_cases h : c = ch '\r'
    · subst h
      rw [if_pos rfl, if_pos (by simp), List.takeWhile_cons_of_neg (by simp)]
      simp
    · have hmem : ch '\r' ∈ c :: l ↔ ch '\r' ∈ l := by
        simp [Ne.symm h]
      rw [if_neg h, ih, List.takeWhile_cons_of_pos (by simp [h])]
      simp only [hmem, List.length_cons, List.foldl_cons]
      congr 2
      simp only [Prod.mk.injEq, and_true]
      omega

theorem takeWhile_append_cr {ds : Bytes} (h : ∀ c ∈ ds, c ≠ ch '\r') (tail : Bytes) :
    (ds ++ ch '\r' :: tail).takeWhile (· ≠ ch '\r') = ds := by
  rw [List.takeWhile_append_of_pos (fun c hc => by simpa using h c hc),
    List.takeWhile_cons_of_neg (by simp), List.append_nil]

theorem eq_cons_of_getD {l : Bytes} {a d : UInt8} (hl : 0 < l.length) (h : l.getD 0 d = a) :
    l = a :: l.drop 1 := by
  match l with
  | [] => simp at hl
  | c :: l =>
    rw [← h]
    rfl

theorem eq_append_of_getD {l pre : Bytes} {a b d : UInt8} (hp : pre <+: l)
    (hlen : pre.length + 1 < l.length) (ha : l.getD pre.length d = a)
    (hb : l.getD (pre.length + 1) d = b) : ∃ tail, l = pre ++ a :: b :: tail := by
  obtain ⟨rest, rfl⟩ := hp
  match rest with
  | [] | [_] =>
    simp only [List.length_append, List.length_cons, List.length_nil] at hlen
    omega
  | x :: y :: tail =>
    have hx : x = a := by simpa [List.getD_eq_getElem?_getD] using ha
    have hy : y = b := by simpa [List.getD_eq_getElem?_getD, List.getElem?_append] using hb
    exact ⟨tail, by rw [hx, hy]⟩

namespace Bulk
variable {p : Ptr} {b : Bulk}

theorem dollar_of_pos (h : 0 < (parse p n).presentSize) :
    ¬ n < 4 ∧ p.rest.getD 0 0 = ch '$' := by
  simp only [parse, parseSize] at h
  by_cases h4 : n < 4
  · rw [if_pos h4] at h
    exact absurd h (by decide)
  · rw [if_neg h4] at h
    refine ⟨h4, ?_⟩
    by_contra h0
    rw [if_pos h0] at h
    exact absurd h (by decide)

theorem parse_nil (hl : n ≤ p.rest.length) (h : 0 < (parse p n).presentSize)
    (hnil : (parse p n).isNil = true) :
    5 ≤ n ∧ p.rest.take 5 = ascii "$-1\r\n" ∧ (parse p n).presentSize = 5 := by
  have h1 : p.rest.getD 1 0 = ch '-' := by simpa [isNil, parse] using hnil
  obtain ⟨h4, h0⟩ := dollar_of_pos h
  simp only [parse, parseSize] at h ⊢
  rw [if_neg h4, if_neg (not_not.mpr h0), if_pos h1] at h ⊢
  have h2 : p.rest.getD 2 0 = ch '1' := by
    by_contra h2
    rw [if_pos h2] at h
    exact absurd h (by decide)
  rw [if_neg (not_not.mpr h2)] at h ⊢
  have h5 : ¬ n < 5 := by
    intro h5
    rw [if_pos h5] at h
    exact absurd h (by decide)
  rw [if_neg h5] at h ⊢
  have h34 : p.rest.getD 3 0 = ch '\r' ∧ p.rest.getD 4 0 = ch '\n' := by
    by_contra h34
    rw [if_pos (by simpa only [ne_eq, ← not_and_or] using h34)] at h
    exact absurd h (by decide)
  refine ⟨by omega, ?_, if_neg (by simpa only [ne_eq, ← not_and_or, not_not] using h34)⟩
  have h5' : 5 ≤ p.rest.length := by omega
  rcases hr : p.rest with _ | ⟨c0, _ | ⟨c1, _ | ⟨c2, _ | ⟨c3, _ | ⟨c4, tail⟩⟩⟩⟩⟩
  case cons.cons.cons.cons.cons =>
    rw [hr] at h0 h1 h2 h34
    simp only [List.getD_cons_zero, List.getD_cons_succ] at h0 h1 h2 h34
    rw [h0, h1, h2, h34.1, h34.2]
    rfl
  all_goals
    rw [hr] at h5'
    simp only [List.length_cons, List.length_nil] at h5'
    omega

theorem parse_string (hl : n ≤ p.rest.length) (h : 0 < (parse p n).presentSize)
    (hnil : (parse p n).isNil = false) :
    ∃ tail, p.rest = ch '$' :: ((parse p n).headerText ++ ch '\r' :: ch '\n' :: tail) ∧
      (parse p n).headerText.length + 3 ≤ n ∧ (parse p n).presentSize = sizeToInt (min n
        (((parse p n).headerText.length + 1 + (parse p n).headerText.foldl accDigit 0 + 4) % 2 ^
          64)) := by
  have h1 : p.rest.getD 1 0 ≠ ch '-' := by simpa [isNil, parse] using hnil
  obtain ⟨h4, h0⟩ := dollar_of_pos h
  simp only [parse, parseSize] at h ⊢
  rw [if_neg h4, if_neg (not_not.mpr h0), if_neg h1] at h ⊢
  have hdrop : (p.rest.drop 1).length = p.rest.length - 1 := List.length_drop
  have hscan := scanHeader_eq n (p.rest.drop 1) 1 0 (by omega) (by omega)
  generalize hds : ((p.rest.drop 1).take (n - 1)).takeWhile (· ≠ ch '\r') = ds at hscan
  rw [hscan] at h ⊢
  simp only at h ⊢
  split at h
  next hcond =>
    obtain ⟨hcr, hlt, hlf⟩ := hcond
    have hcons : p.rest = ch '$' :: p.rest.drop 1 := eq_cons_of_getD (by omega) h0
    have hpre : ds <+: p.rest.drop 1 := by
      rw [← hds]
      exact (List.takeWhile_prefix _).trans (List.take_prefix _ _)
    have hget : ∀ i, (p.rest.drop 1).getD i 0 = p.rest.getD (1 + i) 0 := by
      intro i
      simp [List.getD_eq_getElem?_getD, Nat.add_comm]
    obtain ⟨tail, htail⟩ := eq_append_of_getD (d := 0) hpre (by omega) ((hget _).trans hcr)
      ((hget _).trans hlf)
    have hne : ∀ c ∈ ds, c ≠ ch '\r' := by
      intro c hc
      rw [← hds] at hc
      simpa using List.mem_takeWhile_imp hc
    have htext : (p.rest.drop 1).takeWhile (· ≠ ch '\r') = ds := by
      rw [htail]
      exact takeWhile_append_cr hne _
    refine ⟨tail, ?_, ?_, ?_⟩
    · rw [headerText, htext, ← htail]
      exact hcons
    · rw [headerText, htext]
      omega
    · rw [headerText, htext, if_pos ⟨hcr, hlt, hlf⟩, Nat.add_comm 1]
  next => exact absurd h (by decide)

theorem totalSize_nil (h : b.isNil = true) : b.totalSize = some 5 := by
  have h1 : b.rawData.rest.getD 1 0 = ch '-' := by simpa [isNil] using h
  rw [totalSize, totalOf, if_pos h1]

theorem totalSize_string {tail : Bytes} (h : b.isNil = false)
    (hr : b.rawData.rest = ch '$' :: (b.headerText ++ ch '\r' :: tail)) :
    b.totalSize =
      some ((b.headerText.foldl accDigit 0 + (b.headerText.length + 1) + 4) % 2 ^ 64) := by
  have h1 : b.rawData.rest.getD 1 0 ≠ ch '-' := by simpa [isNil] using h
  have hdrop : b.rawData.rest.drop 1 = b.headerText ++ ch '\r' :: tail := by
    rw [hr]
    rfl
  rw [totalSize, totalOf, if_neg h1, scanTotal_eq, if_pos (by rw [hdrop]; simp), ← headerText,
    Nat.add_comm 1]
  rfl

theorem payloadSize_lt (b : Bulk) : b.payloadSize < 2 ^ 31 := by
  rw [payloadSize]
  cases hs : stoi (b.rawData.rest.drop 1) with
  | none => decide
  | some v =>
    have hv := (stoi_bounds hs).2
    simp only
    split
    · omega
    · decide

section Digits
variable {ds payload tail : Bytes}

theorem headerText_digits (hd : ∀ c ∈ ds, isDigit c = true)
    (hr : b.rawData.rest = ch '$' :: (ds ++ ch '\r' :: ch '\n' :: tail)) : b.headerText = ds := by
  rw [headerText, hr]
  exact takeWhile_append_cr (fun c hc => isDigit_ne (hd c hc) (by decide)) _

theorem isNil_digits (hn : ds ≠ []) (hd : ∀ c ∈ ds, isDigit c = true)
    (hr : b.rawData.rest = ch '$' :: (ds ++ ch '\r' :: ch '\n' :: tail)) : b.isNil = false := by
  obtain ⟨c, cs, rfl⟩ := List.exists_cons_of_ne_nil hn
  have hc : c ≠ ch '-' := isDigit_ne (hd c (by simp)) (by decide)
  rw [isNil, hr]
  exact decide_eq_false hc

theorem payloadOffset_digits (hn : ds ≠ []) (hd : ∀ c ∈ ds, isDigit c = true)
    (hr : b.rawData.rest = ch '$' :: (ds ++ ch '\r' :: ch '\n' :: tail)) :
    b.payloadOffset = some (ds.length + 3) := by
  obtain ⟨c, cs, rfl⟩ := List.exists_cons_of_ne_nil hn
  have hlf : ∀ d ∈ cs ++ [ch '\r'], (d == ch '\n') = false := by
    intro d hmem
    rcases List.mem_append.mp hmem with hmem | hmem
    · simpa using isDigit_ne (hd d (by simp [hmem])) (by decide)
    · rw [List.mem_singleton.mp hmem]
      decide
  have hdrop : b.rawData.rest.drop 2 = (cs ++ [ch '\r']) ++ ch '\n' :: tail := by
    rw [hr]
    simp
  rw [payloadOffset, hdrop, Lists.findIdx?_stops hlf (by simp)]
  simp

theorem payloadSize_digits (hn : ds ≠ []) (hd : ∀ c ∈ ds, isDigit c = true)
    (hr : b.rawData.rest = ch '$' :: (ds ++ ch '\r' :: ch '\n' :: tail))
    (hb : digitsToNat 0 ds < 2 ^ 31) : b.payloadSize = digitsToNat 0 ds := by
  have hdrop : b.rawData.rest.drop 1 = ds ++ ch '\r' :: ch '\n' :: tail := by
    rw [hr]
    rfl
  have hcr : isDigit (ch '\r') = false := by decide
  rw [payloadSize, hdrop, stoi_digits hd hn (by simp [hcr]) hb]
  generalize digitsToNat 0 ds = v
  simp only
  split
  · exact Int.toNat_natCast v
  · omega

theorem totalSize_digits (hn : ds ≠ []) (hd : ∀ c ∈ ds, isDigit c = true)
    (hr : b.rawData.rest = ch '$' :: (ds ++ ch '\r' :: ch '\n' :: tail))
    (hb : digitsToNat 0 ds + ds.length + 5 < 2 ^ 64) :
    b.totalSize = some (ds.length + 3 + digitsToNat 0 ds + 2) := by
  have htext := headerText_digits hd hr
  have hv : digitsToNat 0 ds < 2 ^ 64 := by omega
  have hfold : ds.foldl accDigit 0 = digitsToNat 0 ds := by
    rw [← Nat.mod_eq_of_lt hv, ← foldl_accDigit hd 0, Nat.zero_mod]
  have htotal : (digitsToNat 0 ds + (ds.length + 1) + 4) % 2 ^ 64 =
      ds.length + 3 + digitsToNat 0 ds + 2 := by omega
  rw [totalSize_string (isNil_digits hn hd hr) (htext.symm ▸ hr), htext, hfold, htotal]

end Digits

theorem Strict.rest_eq {tail : Bytes} (hs : b.Strict)
    (hr : b.rawData.rest = ch '$' :: (b.headerText ++ ch '\r' :: ch '\n' :: tail)) :
    ∃ payload rest, payload.length = digitsToNat 0 b.headerText ∧
      tail = payload ++ (crlf ++ rest) := by
  have hdrop : b.rawData.rest.drop (b.headerText.length + 3 + digitsToNat 0 b.headerText) =
      tail.drop (digitsToNat 0 b.headerText) := by
    rw [hr, ← List.drop_drop]
    congr 1
    have : ch '$' :: (b.headerText ++ ch '\r' :: ch '\n' :: tail) =
        (ch '$' :: (b.headerText ++ [ch '\r', ch '\n'])) ++ tail := by simp
    rw [this, List.drop_left' (by simp)]
  have htrailer := hs.trailer
  rw [hdrop] at htrailer
  refine ⟨tail.take (digitsToNat 0 b.headerText),
    (tail.drop (digitsToNat 0 b.headerText)).drop 2, ?_, ?_⟩
  · have := congrArg List.length htrailer
    simp only [List.length_take, List.length_drop, crlf, List.length_cons, List.length_nil] at this
    rw [List.length_take]
    omega
  · rw [← htrailer, List.take_append_drop, List.take_append_drop]

theorem Strict.canonical {tail : Bytes} (hs : b.Strict) (hmem : b.rawData.rest.length < 2 ^ 63)
    (hr : b.rawData.rest = ch '$' :: (b.headerText ++ ch '\r' :: ch '\n' :: tail)) :
    ∃ total, b.totalSize = some total ∧ total ≤ b.rawData.rest.length ∧ CanonicalBulk b.raw ∧
      b.payloadOffset = some (b.headerText.length + 3) ∧
      total = b.headerText.length + 3 + b.payloadSize + 2 := by
  obtain ⟨payload, rest, hlen, rfl⟩ := hs.rest_eq hr
  have hsplit : b.rawData.rest =
      (ch '$' :: (b.headerText ++ crlf ++ payload ++ crlf)) ++ rest := by
    have hc : crlf = [ch '\r', ch '\n'] := rfl
    rw [hr, hc]
    simp
  have hle : (ch '$' :: (b.headerText ++ crlf ++ payload ++ crlf)).length =
      b.headerText.length + 3 + digitsToNat 0 b.headerText + 2 := by
    simp only [crlf, List.length_cons, List.length_append, List.length_nil, hlen]
    omega
  have hrest : b.headerText.length + 3 + digitsToNat 0 b.headerText + 2 ≤
      b.rawData.rest.length := by
    rw [hsplit, List.length_append, hle]
    exact Nat.le_add_right _ _
  have htotal := totalSize_digits hs.nonempty hs.digits hr (by omega)
  refine ⟨_, htotal, hrest, .inr ⟨b.headerText, payload, hs.nonempty, hs.digits, hlen.symm, ?_⟩,
    payloadOffset_digits hs.nonempty hs.digits hr, ?_⟩
  · rw [raw, htotal, Option.getD_some, Ptr.bytes, hsplit, ← hle, List.take_left]
  · rw [payloadSize_digits hs.nonempty hs.digits hr hs.bound]

theorem strict_of_canonical (hmem : b.rawData.rest.length < 2 ^ 63) (hnil : b.isNil = false)
    (hc : CanonicalBulk b.raw)
    (hsize : ∃ header, b.payloadOffset = some header ∧
      b.totalSize = some (header + b.payloadSize + 2)) : b.Strict := by
  obtain ⟨header, hoff, htotal⟩ := hsize
  have hraw : b.raw = b.rawData.rest.take (header + b.payloadSize + 2) := by
    rw [raw, htotal, Option.getD_some, Ptr.bytes]
  have hrest : b.rawData.rest = b.raw ++ b.rawData.rest.drop (header + b.payloadSize + 2) := by
    rw [hraw, List.take_append_drop]
  rcases hc with hc | ⟨ds, payload, hn, hd, hlen, hc⟩
  · rw [hc] at hrest
    have : b.isNil = true := by
      rw [isNil, hrest]
      rfl
    rw [this] at hnil
    cases hnil
  · rw [hc] at hrest
    generalize b.rawData.rest.drop (header + b.payloadSize + 2) = more at hrest
    have hr : b.rawData.rest =
        ch '$' :: (ds ++ ch '\r' :: ch '\n' :: (payload ++ crlf ++ more)) := by
      have hcr : crlf = [ch '\r', ch '\n'] := rfl
      rw [hrest, hcr]
      simp
    have hlength := congrArg List.length hrest
    simp only [crlf, List.length_cons, List.length_append, List.length_nil] at hlength
    have htext := headerText_digits hd hr
    have hoff' := Option.some.inj ((payloadOffset_digits hn hd hr).symm.trans hoff)
    have htotal' := Option.some.inj ((totalSize_digits hn hd hr (by omega)).symm.trans htotal)
    have hpay := payloadSize_lt b
    refine ⟨htext.symm ▸ hn, htext.symm ▸ hd, ?_, ?_⟩
    · rw [htext]
      omega
    · have hpre : (ch '$' :: (ds ++ crlf ++ payload)).length =
          b.headerText.length + 3 + digitsToNat 0 b.headerText := by
        rw [htext, hlen]
        simp only [crlf, List.length_cons, List.length_append, List.length_nil]
        omega
      have hsplit : b.rawData.rest = (ch '$' :: (ds ++ crlf ++ payload)) ++ (crlf ++ more) := by
        rw [hrest]
        simp
      rw [hsplit, List.drop_left' hpre]
      rfl

end Bulk
end OneBulk

/-- Bulks that were parsed one behind the other, each before `stop`. -/
def Chain (stop : ℕ) : Ptr → List Bulk → Prop
  | _, [] => True
  | p, b :: bs => p.off < stop ∧ b = Bulk.parse p (stop - p.off) ∧ 0 < b.presentSize ∧
      ∃ total q, b.totalSize = some total ∧ p.add total = some q ∧ Chain stop q bs

theorem Chain.mem {stop : ℕ} : ∀ (bs : List Bulk) (p : Ptr), Chain stop p bs →
    ∀ b ∈ bs, b.rawData.mem = p.mem := by
  intro bs
  induction bs with
  | nil => simp
  | cons b bs ih =>
    rintro p ⟨_, hb, _, total, q, _, hq, hchain⟩ c hc
    rcases List.mem_cons.mp hc with rfl | hc
    · rw [hb]
      rfl
    · rw [ih q hchain c hc]
      rw [Ptr.add] at hq
      split at hq
      · rw [← Option.some.inj hq]
      · split at hq
        · rw [← Option.some.inj hq]
        · cases hq

theorem parseBulkItemsLoop_chain {data : Ptr} {bytes : ℕ} {ret : ℤ} {items : List Bulk}
    (hret : 0 ≤ ret) : ∀ (fuel : ℕ) (p : Ptr) (parsed : ℤ) (acc : List Bulk),
      parseBulkItemsLoop data bytes fuel p parsed acc = some (ret, items) →
      ∃ new, items = acc ++ new ∧ Chain (data.off + bytes) p new := by
  intro fuel
  induction fuel with
  | zero =>
    intro p parsed acc h
    simp only [parseBulkItemsLoop, Option.some.injEq, Prod.mk.injEq] at h
    exact ⟨[], by simp [h.2], trivial⟩
  | succ fuel ih =>
    intro p parsed acc h
    have stop : ∀ {v : ℤ}, some (v, acc) = some (ret, items) →
        ∃ new, items = acc ++ new ∧ Chain (data.off + bytes) p new := by
      intro v hv
      obtain ⟨_, rfl⟩ := Prod.mk.inj (Option.some.inj hv)
      exact ⟨[], (List.append_nil _).symm, trivial⟩
    rw [parseBulkItemsLoop] at h
    split at h
    next hp =>
      simp only at h
      split at h
      next =>
        obtain ⟨rfl, _⟩ := Prod.mk.inj (Option.some.inj h)
        omega
      next hneg =>
        split at h
        next => exact stop h
        next hz =>
          rw [Option.bind_eq_bind, Option.bind_eq_some_iff] at h
          obtain ⟨total, htotal, h⟩ := h
          rw [Option.bind_eq_bind, Option.bind_eq_some_iff] at h
          obtain ⟨q, hq, h⟩ := h
          obtain ⟨new, rfl, hnew⟩ := ih q _ _ h
          refine ⟨Bulk.parse p (data.off + bytes - p.off) :: new,
            by simp, hp, rfl, by omega, total, q, htotal, hq, hnew⟩
    next => exact stop h

theorem Chain.raw {stop : ℕ} : ∀ (bs : List Bulk) (p : Ptr) (t : ℕ), Chain stop p bs →
    stop ≤ p.mem.length → t + p.rest.length < 2 ^ 64 → p.mem.length < 2 ^ 63 →
      p.off ≤ p.mem.length →
    (∀ b ∈ bs, b.isNil = false → b.Strict) →
    ∃ total, bs.foldlM (fun total item => item.totalSize.map (addSize total)) t = some (t + total) ∧
      total ≤ p.rest.length ∧ p.bytes total = bs.flatMap Bulk.raw ∧
      (∀ b ∈ bs, CanonicalBulk b.raw) ∧
      ∀ b ∈ bs, b.isNil = false → ∃ header, b.payloadOffset = some header ∧
        b.totalSize = some (header + b.payloadSize + 2) := by
  intro bs
  induction bs with
  | nil =>
    intro p t _ _ _ _ _ _
    exact ⟨0, rfl, Nat.zero_le _, rfl, by simp, by simp⟩
  | cons b bs ih =>
    intro p t h hstop ht hmem hoff hstrict
    obtain ⟨hp, hb, hpos, total, q, htotal, hq, hchain⟩ := h
    have hraw : b.rawData = p := by
      rw [hb]
      rfl
    have hlen : p.rest.length = p.mem.length - p.off := List.length_drop
    have hsize : total ≤ p.rest.length ∧ CanonicalBulk b.raw ∧ (b.isNil = false →
        ∃ header, b.payloadOffset = some header ∧
          b.totalSize = some (header + b.payloadSize + 2)) := by
      cases hnil : b.isNil with
      | true =>
        obtain rfl := Option.some.inj (htotal.symm.trans (Bulk.totalSize_nil hnil))
        rw [hb] at hnil hpos
        obtain ⟨h5, htext, _⟩ := Bulk.parse_nil (by omega) hpos hnil
        refine ⟨by omega, .inl ?_, fun hf => by cases hf⟩
        rw [Bulk.raw, htotal, hraw]
        exact htext
      | false =>
        have hs := hstrict b (by simp) hnil
        rw [hb] at hnil hpos
        obtain ⟨tail, hrest, _⟩ := Bulk.parse_string (by omega) hpos hnil
        rw [← hb] at hrest
        obtain ⟨total', ht', hle, hcan, hpo, heq⟩ :=
          hs.canonical (by rw [hraw]; omega) (hraw ▸ hrest)
        obtain rfl := Option.some.inj (htotal.symm.trans ht')
        exact ⟨hraw ▸ hle, hcan, fun _ => ⟨_, hpo, heq ▸ htotal⟩⟩
    obtain ⟨hle, hcan, hsizes⟩ := hsize
    obtain rfl : (⟨p.mem, p.off + total⟩ : Ptr) = q := by
      rw [Ptr.add, if_pos (by omega)] at hq
      exact Option.some.inj hq
    have hrest : Ptr.rest ⟨p.mem, p.off + total⟩ = p.rest.drop total := by
      rw [Ptr.rest, Ptr.rest, List.drop_drop]
    have hlen' : (Ptr.rest ⟨p.mem, p.off + total⟩).length = p.rest.length - total := by
      rw [hrest, List.length_drop]
    obtain ⟨more, hfold, hmore, hbytes, hcans, hsizess⟩ := ih _ (t + total) hchain hstop
      (by omega) hmem (by dsimp only; omega) (fun c hc => hstrict c (by simp [hc]))
    refine ⟨total + more, ?_, by omega, ?_, ?_, ?_⟩
    · rw [List.foldlM_cons, htotal, Option.map_some, Option.bind_eq_bind, Option.bind_some,
        addSize_eq (by omega), hfold, Nat.add_assoc]
    · rw [List.flatMap_cons, ← hbytes, Bulk.raw, htotal, hraw, Option.getD_some]
      simp only [Ptr.bytes, hrest]
      rw [List.take_add]
    · intro c hc
      rcases List.mem_cons.mp hc with rfl | hc
      · exact hcan
      · exact hcans c hc
    · intro c hc
      rcases List.mem_cons.mp hc with rfl | hc
      · exact hsizes
      · exact hsizess c hc

namespace BulkArray

theorem parse_line {data : Ptr} {n : ℕ} {ba : BulkArray} (hl : n ≤ data.rest.length)
    (h : parse data n = some ba) (hne : ba.items ≠ []) (hok : 0 ≤ ba.parsedSize) :
    ba.rawData = data ∧ ∃ count tail ret, count ≠ [] ∧ (∀ c ∈ count, isDigit c = true) ∧
      data.rest = ch '*' :: (count ++ ch '\r' :: ch '\n' :: tail) ∧ count.length + 3 ≤ n ∧ 0 ≤ ret ∧
      parseBulkItems ⟨data.mem, data.off + (count.length + 3)⟩ (n - (count.length + 3))
        (count.foldl accDigit 0) = some (ret, ba.items) := by
  have empty : ∀ {f}, some (⟨data, f, []⟩ : BulkArray) = some ba → False := by
    intro f hf
    obtain rfl := Option.some.inj hf
    exact hne rfl
  unfold parse at h
  simp only at h
  by_cases h4 : n < 4
  · rw [if_pos h4] at h
    exact (empty h).elim
  rw [if_neg h4] at h
  by_cases h0 : data.rest.getD 0 0 = ch '*'
  case neg =>
    rw [if_pos h0] at h
    exact (empty h).elim
  rw [if_neg (not_not.mpr h0), scanCount_eq] at h
  generalize hcount : ((data.rest.take n).drop 1).takeWhile isDigit = count at h
  simp only at h
  by_cases hk : 1 + count.length + 2 > n
  · rw [if_pos hk] at h
    exact (empty h).elim
  rw [if_neg hk] at h
  by_cases hline : 1 + count.length = 1 ∨ data.rest.getD (1 + count.length) 0 ≠ ch '\r' ∨
      data.rest.getD (1 + count.length + 1) 0 ≠ ch '\n'
  · rw [if_pos hline] at h
    exact (empty h).elim
  rw [if_neg hline, Option.bind_eq_bind, Option.bind_eq_some_iff] at h
  obtain ⟨⟨ret, items⟩, hitems, h⟩ := h
  simp only at h
  by_cases hret : ret < 0
  · rw [if_pos hret] at h
    obtain rfl := Option.some.inj h
    have herr : ¬ (0 : ℤ) ≤ sizeToInt (intToSize sizeParseError) := by decide
    exact absurd hok herr
  rw [if_neg hret] at h
  obtain rfl := Option.some.inj h
  simp only [not_or, ne_eq, not_not] at hline
  have hpre : count <+: data.rest.drop 1 := by
    rw [← hcount, List.drop_take]
    exact (List.takeWhile_prefix _).trans (List.take_prefix _ _)
  have hget : ∀ i, (data.rest.drop 1).getD i 0 = data.rest.getD (1 + i) 0 := by
    intro i
    simp [List.getD_eq_getElem?_getD, Nat.add_comm]
  obtain ⟨tail, htail⟩ := eq_append_of_getD (d := 0) hpre (by rw [List.length_drop]; omega)
    ((hget _).trans hline.2.1) ((hget _).trans hline.2.2)
  have hlen : 1 + count.length + 2 = count.length + 3 := by omega
  refine ⟨rfl, count, tail, ret, ?_, ?_, ?_, by omega, by omega, ?_⟩
  · rintro rfl
    exact hline.1 rfl
  · intro c hc
    rw [← hcount] at hc
    exact List.mem_takeWhile_imp hc
  · rw [← htail]
    exact eq_cons_of_getD (by omega) h0
  · have hoff : data.off + (1 + count.length) + 2 = data.off + (count.length + 3) := by omega
    rw [hoff, hlen] at hitems
    exact hitems

end BulkArray

section Accepted
variable {data : Ptr} {n : ℕ} {ba : BulkArray}

theorem Accepted.totalBulks (h : Accepted data n ba) : ba.items.length = ba.totalBulks := by
  by_contra hne
  have := h.completed
  rw [BulkArray.completed, if_pos hne] at this
  cases this

theorem Accepted.chain (h : Accepted data n ba) : ba.rawData = data ∧ ∃ count tail, count ≠ [] ∧
    (∀ c ∈ count, isDigit c = true) ∧ digitsToNat 0 count = ba.presentBulks ∧
    data.rest = ch '*' :: (count ++ ch '\r' :: ch '\n' :: tail) ∧ count.length + 3 ≤ n ∧
    Chain (data.off + n) ⟨data.mem, data.off + (count.length + 3)⟩ ba.items := by
  have hne : ba.items ≠ [] := List.length_pos_iff.mp h.nonempty
  obtain ⟨hraw, count, tail, ret, hc, hd, hrest, hn, hret, hitems⟩ :=
    BulkArray.parse_line h.within h.parsed hne h.noError
  obtain ⟨new, hnew, hchain⟩ := parseBulkItemsLoop_chain hret _ _ _ _ hitems
  rw [List.nil_append] at hnew
  subst hnew
  refine ⟨hraw, count, tail, hc, hd, ?_, hrest, hn, ?_⟩
  · have htotal := h.totalBulks
    have hdrop : ba.rawData.rest.drop 1 = count ++ ch '\r' :: ch '\n' :: tail := by
      rw [hraw, hrest]
      rfl
    have hcr : isDigit (ch '\r') = false := by decide
    rw [BulkArray.presentBulks, htotal, BulkArray.totalBulks, hdrop]
    by_cases hb : digitsToNat 0 count < 2 ^ 31
    · rw [stoi_digits hd hc (by simp [hcr]) hb]
      exact (intToSize_natCast (by omega)).symm
    · -- a count that stoi refuses is read as zero
      exfalso
      have hz : ba.totalBulks = 0 := by
        rw [BulkArray.totalBulks, hdrop, stoi_large hd hc (by simp [hcr]) (by omega)]
      exact hne (List.length_eq_zero_iff.mp (htotal.trans hz))
  · have hstop : data.off + (count.length + 3) + (n - (count.length + 3)) = data.off + n := by omega
    rwa [hstop] at hchain

/-- An accepted array is the encoding of its bulks exactly when every byte string in it has a
decimal length below 2^31 and is followed by a line end. -/
theorem sound_iff_strict (h : Accepted data n ba) :
    Sound data ba ↔ ∀ b ∈ ba.items, b.isNil = false → b.Strict := by
  obtain ⟨hraw, count, tail, hc, hd, hcount, hrest, hn, hchain⟩ := h.chain
  have hmem := h.memory
  have hwithin := h.within
  have hlen : data.rest.length = data.mem.length - data.off := List.length_drop
  constructor
  · intro hs b hb hnil
    refine Bulk.strict_of_canonical ?_ hnil (hs.canonical b hb) (hs.sizes b hb hnil)
    have := hchain.mem _ _ b hb
    rw [Ptr.rest, List.length_drop, this]
    dsimp only
    omega
  · intro hs
    have hsplit : data.rest = (ch '*' :: (count ++ crlf)) ++ tail := by
      have hcr : crlf = [ch '\r', ch '\n'] := rfl
      rw [hrest, hcr]
      simp
    have hline : (ch '*' :: (count ++ crlf)).length = count.length + 3 := by
      simp [crlf]
    have hbehind : Ptr.rest ⟨data.mem, data.off + (count.length + 3)⟩ =
        data.rest.drop (count.length + 3) := by
      rw [Ptr.rest, Ptr.rest, List.drop_drop]
    obtain ⟨total, hfold, hle, hbytes, hcan, hsizes⟩ :=
      Chain.raw ba.items _ (count.length + 3) hchain
      (by dsimp only; omega) (by rw [hbehind, List.length_drop]; omega) hmem
        (by dsimp only; omega) hs
    refine ⟨⟨count.length + 3 + total, count, ?_, hc, hd, hcount, ?_⟩, hcan, hsizes⟩
    · obtain ⟨front, bulks, hfront⟩ := List.exists_cons_of_length_pos h.nonempty
      have hoff : front.rawData.off - ba.rawData.off = count.length + 3 := by
        rw [hfront] at hchain
        rw [hchain.2.1, hraw]
        exact Nat.add_sub_cancel_left _ _
      have htotal := h.totalBulks
      have hne := h.nonempty
      rw [BulkArray.presentBulks] at hne
      rw [BulkArray.totalSize, ← htotal, if_neg (Nat.lt_irrefl _), if_neg (by omega), ← hfold,
        hfront]
      simp only [hoff]
    · rw [← hbytes, Ptr.bytes, Ptr.bytes, hbehind, List.take_add]
      conv_lhs => rw [hsplit, ← hline, List.take_left]
      rw [← hsplit, hline]
      rfl

end Accepted

def getRequest : Ptr := ⟨ascii "*2\r\n$3\r\nget\r\n$1\r\nk\r\n", 0⟩

theorem getRequest_accepted : ∃ ba, Accepted getRequest 20 ba ∧
    (Sound getRequest ba ↔ ∀ b ∈ ba.items, b.isNil = false → b.Strict) := by
  have h : Accepted getRequest 20 ((BulkArray.parse getRequest 20).get (by decide)) :=
    ⟨by decide, by decide, by simp, by decide, by decide, by decide⟩
  exact ⟨_, h, sound_iff_strict h⟩

/-- A colon in the place of the length counts as ten. -/
def colonLength : Ptr := ⟨ascii "*1\r\n$:\r\n0123456789\r\n", 0⟩

/-- The array is accepted with all its twenty bytes, though its bulk has no decimal length: its
total size is 16, its payload size 0. -/
theorem colonLength_accepted : ∃ ba b, Accepted colonLength 20 ba ∧ ba.items = [b] ∧
    ba.totalSize = some 20 ∧ b.totalSize = some 16 ∧ b.payloadSize = 0 ∧
    ¬ CanonicalBulk b.raw ∧ ¬ Sound colonLength ba := by
  have h : Accepted colonLength 20 ((BulkArray.parse colonLength 20).get (by decide)) :=
    ⟨by decide, by decide, by simp, by decide, by decide, by decide⟩
  refine ⟨_, ⟨⟨colonLength.mem, 4⟩, 16⟩, h, by decide, by decide, by decide, by decide, ?_, ?_⟩
  · rintro (hc | ⟨ds, payload, hn, hd, _, hc⟩)
    · exact absurd hc (by decide)
    · obtain ⟨c, cs, rfl⟩ := List.exists_cons_of_ne_nil hn
      have hcolon : (ch ':') = c := (List.cons.inj (List.cons.inj hc).2).1
      have hdigit := hd c (by simp)
      rw [← hcolon] at hdigit
      exact absurd hdigit (by decide)
  · intro hs
    obtain ⟨header, hoff, htotal⟩ := hs.sizes ⟨⟨colonLength.mem, 4⟩, 16⟩ (by decide) (by decide)
    have hheader : (⟨⟨colonLength.mem, 4⟩, 16⟩ : Bulk).payloadOffset = some 4 := by decide
    obtain rfl := Option.some.inj (hheader.symm.trans hoff)
    exact absurd htotal (by decide)

end Yarmproxy

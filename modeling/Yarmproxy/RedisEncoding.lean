import Yarmproxy.RedisProtocol

/-! # What the RESP wrappers find in encoded data

The parser is run on the received part of an encoding, with arbitrary bytes behind it in
the buffer. Every result is stated for a prefix of any length. -/
namespace Yarmproxy

/-- An element of a RESP array: a bulk string, or nil. -/
abbrev Item := Option Bytes

def encodeItem : Item → Bytes
  | none => ascii "$-1\r\n"
  | some v => ch '$' :: (dec v.length ++ ch '\r' :: ch '\n' :: (v ++ crlf))

/-- The bytes up to and including the first line end. -/
def headerSize : Item → ℕ
  | none => 5
  | some v => (dec v.length).length + 3

def itemSize (it : Item) : ℕ := (encodeItem it).length

def encodeItems (its : List Item) : Bytes := its.flatMap encodeItem

def encodeArray (its : List Item) : Bytes := serializePrefix its.length ++ encodeItems its

theorem itemSize_some (v : Bytes) : itemSize (some v) = headerSize (some v) + v.length + 2 := by
  simp [itemSize, encodeItem, headerSize, crlf]
  omega

@[simp] theorem itemSize_none : itemSize none = 5 := rfl

theorem headerSize_le (it : Item) : headerSize it ≤ itemSize it := by
  cases it with
  | none => exact le_rfl
  | some v => rw [itemSize_some]; omega

theorem four_le_headerSize (it : Item) : 4 ≤ headerSize it := by
  cases it with
  | none => decide
  | some v =>
    have := List.length_pos_iff.mpr (dec_ne_nil v.length)
    simp only [headerSize]
    omega

theorem digitSize_digit {c : UInt8} (h : isDigit c = true) : digitSize c = c.toNat - 48 := by
  obtain ⟨h₁, h₂⟩ := isDigit_iff.mp h
  have hl : c < 128 := by
    rw [UInt8.lt_iff_toNat_lt]
    exact Nat.lt_of_le_of_lt h₂ (by decide)
  rw [digitSize, if_pos hl, intToSize]
  omega

theorem foldl_accDigit {ds : Bytes} (h : ∀ c ∈ ds, isDigit c = true) (t : ℕ) :
    ds.foldl accDigit (t % 2 ^ 64) = digitsToNat t ds % 2 ^ 64 := by
  induction ds generalizing t with
  | nil => rfl
  | cons c ds ih =>
    have hc := digitSize_digit (h c (by simp))
    have := ih (fun d hd => h d (by simp [hd])) (t * 10 + (c.toNat - 48))
    simp only [List.foldl_cons, digitsToNat, accDigit, hc] at this ⊢
    rw [← this]
    congr 1
    omega

theorem dec_ne_cr {n : ℕ} : ∀ c ∈ dec n, c ≠ ch '\r' :=
  fun _ hc => isDigit_ne (dec_isDigit _ hc) (by decide)

theorem foldl_accDigit_dec {n : ℕ} (h : n < 2 ^ 64) : (dec n).foldl accDigit 0 = n := by
  have := foldl_accDigit (dec_isDigit (n := n)) 0
  rwa [digitsToNat_dec, Nat.zero_mod, Nat.mod_eq_of_lt h] at this

theorem scanHeader_append {bytes : ℕ} {ds l : Bytes} (hd : ∀ c ∈ ds, c ≠ ch '\r') {k t : ℕ}
    (hk : k + ds.length ≤ bytes) :
    scanHeader bytes (ds ++ l) k t = scanHeader bytes l (k + ds.length) (ds.foldl accDigit t) := by
  induction ds generalizing k t with
  | nil => rfl
  | cons c ds ih =>
    simp only [List.length_cons] at hk
    rw [List.cons_append, scanHeader, if_pos ⟨hd c (by simp), by omega⟩,
      ih (fun d h => hd d (by simp [h])) (by omega), List.foldl_cons, List.length_cons]
    congr 1
    omega

theorem scanHeader_end {bytes : ℕ} (l : Bytes) (t : ℕ) :
    scanHeader bytes l bytes t = (bytes, t) := by
  cases l <;> simp [scanHeader]

theorem scanHeader_cr {bytes : ℕ} (l : Bytes) (k t : ℕ) :
    scanHeader bytes (ch '\r' :: l) k t = (k, t) := by
  simp [scanHeader]

theorem scanTotal_append {ds l : Bytes} (hd : ∀ c ∈ ds, c ≠ ch '\r') (k t : ℕ) :
    scanTotal (ds ++ l) k t = scanTotal l (k + ds.length) (ds.foldl accDigit t) := by
  induction ds generalizing k t with
  | nil => rfl
  | cons c ds ih =>
    rw [List.cons_append, scanTotal, if_neg (hd c (by simp)),
      ih (fun d h => hd d (by simp [h])), List.foldl_cons, List.length_cons]
    congr 1
    omega

section Header
variable {v rest m : Bytes} {n : ℕ}

/-- A header of which at most the line feed is missing is not parsed. -/
theorem parseSize_short (hm : m.take n = (encodeItem (some v) ++ rest).take n)
    (hl : n ≤ m.length) (hn : n < headerSize (some v)) : Bulk.parseSize m n = 0 := by
  by_cases h4 : n < 4
  · simp [Bulk.parseSize, h4]
  have hd := List.length_pos_iff.mpr (dec_ne_nil v.length)
  simp only [headerSize] at hn
  have h0 : m.getD 0 0 = ch '$' := by rw [getD_of_take hm (by omega)]; rfl
  have h1 : m.getD 1 0 ≠ ch '-' := by
    rw [getD_of_take hm (by omega)]
    obtain ⟨c, cs, hc⟩ := List.exists_cons_of_ne_nil (dec_ne_nil v.length)
    have := dec_isDigit c (by rw [hc]; simp)
    simpa [encodeItem, hc] using isDigit_ne this (by decide)
  -- the scan stops at the end of the bytes or one short of it
  have hk : n ≤ (scanHeader n (m.drop 1) 1 0).1 + 1 := by
    have hdrop : m.drop 1 =
        ((dec v.length ++ ch '\r' :: ch '\n' :: (v ++ crlf) ++ rest).take (n - 1))
        ++ m.drop n := by
      have := congrArg (List.drop 1) hm
      rw [← List.take_append_drop n m, List.drop_append_of_le_length (by simp; omega), this]
      simp [encodeItem, List.drop_take, List.drop_append]
    rw [hdrop]
    by_cases hr : n - 1 ≤ (dec v.length).length
    · rw [List.append_assoc, List.take_append_of_le_length hr,
        scanHeader_append (fun c hc => dec_ne_cr c (List.mem_of_mem_take hc)) (by simp; omega)]
      have : 1 + ((dec v.length).take (n - 1)).length = n := by
        rw [List.length_take]; omega
      rw [this, scanHeader_end]
      omega
    · have hnn : n - 1 = (dec v.length).length + 1 := by omega
      rw [List.append_assoc, List.take_append, List.take_of_length_le (by omega), List.append_assoc,
        scanHeader_append dec_ne_cr (by omega), hnn]
      simp only [Nat.add_sub_cancel_left, List.cons_append, List.take_succ_cons]
      rw [scanHeader_cr]
      simp only
      omega
  simp only [Bulk.parseSize, if_neg h4, h0, ne_eq, not_true_eq_false, if_false, if_neg h1]
  rw [if_neg]
  rintro ⟨_, hlt, _⟩
  omega

theorem drop_one_of_header (hm : m.take n = (encodeItem (some v) ++ rest).take n)
    (hn : headerSize (some v) ≤ n) :
    ∃ tail, m.drop 1 = dec v.length ++ ch '\r' :: ch '\n' :: tail := by
  simp only [headerSize] at hn
  refine ⟨(m.drop ((dec v.length).length + 3)), ?_⟩
  have key : m.take ((dec v.length).length + 3) =
      ch '$' :: (dec v.length ++ [ch '\r', ch '\n']) := by
    have := congrArg (List.take ((dec v.length).length + 3)) hm
    rw [List.take_take, List.take_take, Nat.min_eq_left hn] at this
    rw [this, encodeItem]
    simp [List.take_append, List.take_of_length_le (show (dec v.length).length ≤
      (dec v.length).length + 2 by omega)]
  conv_lhs => rw [← List.take_append_drop ((dec v.length).length + 3) m, key]
  simp

theorem parseSize_header (hm : m.take n = (encodeItem (some v) ++ rest).take n)
    (hn : headerSize (some v) ≤ n) (hb : min n (itemSize (some v)) < 2 ^ 31)
    (hs : itemSize (some v) < 2 ^ 64) :
    Bulk.parseSize m n = (min n (itemSize (some v)) : ℕ) := by
  obtain ⟨tail, ht⟩ := drop_one_of_header hm hn
  have hd := List.length_pos_iff.mpr (dec_ne_nil v.length)
  rw [itemSize_some] at hb hs ⊢
  simp only [headerSize] at hn hb hs ⊢
  have h0 : m.getD 0 0 = ch '$' := by rw [getD_of_take hm (by omega)]; rfl
  have hget : ∀ i, m.getD (i + 1) 0 = (dec v.length ++ ch '\r' :: ch '\n' :: tail).getD i 0 := by
    intro i
    rw [← ht]
    simp [List.getD_eq_getElem?_getD]
  have h1 : m.getD 1 0 ≠ ch '-' := by
    rw [hget 0]
    obtain ⟨c, cs, hc⟩ := List.exists_cons_of_ne_nil (dec_ne_nil v.length)
    have := dec_isDigit c (by rw [hc]; simp)
    simpa [hc] using isDigit_ne this (by decide)
  have hscan : scanHeader n (m.drop 1) 1 0 = ((dec v.length).length + 1, v.length) := by
    rw [ht, scanHeader_append dec_ne_cr (by omega), scanHeader_cr,
      foldl_accDigit_dec (by omega), Nat.add_comm]
  have hcr : m.getD ((dec v.length).length + 1) 0 = ch '\r' := by
    rw [hget]; simp [List.getD_eq_getElem?_getD]
  have hlf : m.getD ((dec v.length).length + 1 + 1) 0 = ch '\n' := by
    rw [hget]; simp [List.getD_eq_getElem?_getD]
  simp only [Bulk.parseSize, if_neg (show ¬ n < 4 by omega), h0, ne_eq, not_true_eq_false,
    if_false, if_neg h1, hscan]
  rw [if_pos ⟨hcr, by omega, hlf⟩, Nat.mod_eq_of_lt (by omega), sizeToInt_eq (by omega)]
  congr 2
  omega

theorem totalOf_header (hm : m.take n = (encodeItem (some v) ++ rest).take n)
    (hn : headerSize (some v) ≤ n) (hs : itemSize (some v) < 2 ^ 64) :
    Bulk.totalOf m = some (itemSize (some v)) := by
  obtain ⟨tail, ht⟩ := drop_one_of_header hm hn
  rw [itemSize_some] at hs ⊢
  simp only [headerSize] at hn hs ⊢
  have h1 : m.getD 1 0 ≠ ch '-' := by
    have : m.getD 1 0 = (m.drop 1).getD 0 0 := by simp [List.getD_eq_getElem?_getD]
    rw [this, ht]
    obtain ⟨c, cs, hc⟩ := List.exists_cons_of_ne_nil (dec_ne_nil v.length)
    have := dec_isDigit c (by rw [hc]; simp)
    simpa [hc] using isDigit_ne this (by decide)
  rw [Bulk.totalOf, if_neg h1, ht, scanTotal_append dec_ne_cr, scanTotal, if_pos rfl,
    foldl_accDigit_dec (by omega)]
  simp only [Option.map_some, Option.some.injEq]
  rw [Nat.mod_eq_of_lt (by omega)]
  omega

end Header

section Items
variable {rest m : Bytes} {n : ℕ} {it : Item} {its : List Item}

theorem parseSize_item (hm : m.take n = (encodeItem it ++ rest).take n) (hl : n ≤ m.length)
    (hb : min n (itemSize it) < 2 ^ 31) (hs : itemSize it < 2 ^ 64) :
    Bulk.parseSize m n = if n < headerSize it then 0 else ((min n (itemSize it) : ℕ) : ℤ) := by
  cases it with
  | some v =>
    split
    next hn => exact parseSize_short hm hl hn
    next hn => exact parseSize_header hm (by omega) hb hs
  | none =>
    have hg : ∀ i, i < n → m.getD i 0 = (ascii "$-1\r\n" ++ rest).getD i 0 :=
      fun i hi => getD_of_take hm hi 0
    by_cases h4 : n < 4
    · simp [Bulk.parseSize, h4, headerSize, show n < 5 by omega]
    · have h0 : m.getD 0 0 = ch '$' := hg 0 (by omega)
      have h1 : m.getD 1 0 = ch '-' := hg 1 (by omega)
      have h2 : m.getD 2 0 = ch '1' := hg 2 (by omega)
      by_cases h5 : n < 5
      · simp only [Bulk.parseSize, if_neg h4, h0, h1, h2, if_pos h5, headerSize]
        simp [h5]
      · have h3 : m.getD 3 0 = ch '\r' := hg 3 (by omega)
        have h4' : m.getD 4 0 = ch '\n' := hg 4 (by omega)
        simp only [Bulk.parseSize, if_neg h4, h0, h1, h2, h3, h4', if_neg h5, headerSize,
          itemSize_none]
        simp only [ne_eq, not_true_eq_false, or_self, if_false, if_true]
        omega

theorem totalOf_item (hm : m.take n = (encodeItem it ++ rest).take n)
    (hn : headerSize it ≤ n) (hs : itemSize it < 2 ^ 64) :
    Bulk.totalOf m = some (itemSize it) := by
  cases it with
  | some v => exact totalOf_header hm hn hs
  | none =>
    simp only [headerSize] at hn
    have h1 : m.getD 1 0 = ch '-' := getD_of_take hm (show 1 < n by omega) 0
    rw [Bulk.totalOf, if_pos h1, itemSize_none]

/-- The items the parser keeps of `its` when `n` bytes of them lie at `off`: those whose
header is complete, the last of them possibly cut. -/
def presentItems (mem : Bytes) (off : ℕ) : List Item → ℕ → List Bulk
  | [], _ => []
  | it :: its, n =>
    if n < headerSize it then []
    else ⟨⟨mem, off⟩, (min n (itemSize it) : ℕ)⟩ ::
      presentItems mem (off + itemSize it) its (n - itemSize it)

/-- The encoded size of the items kept, the missing part of the last one included. -/
def presentTotal : List Item → ℕ → ℕ
  | [], _ => 0
  | it :: its, n =>
    if n < headerSize it then 0 else itemSize it + presentTotal its (n - itemSize it)

@[simp] theorem presentItems_zero (mem : Bytes) (off : ℕ) (its : List Item) :
    presentItems mem off its 0 = [] := by
  cases its with
  | nil => rfl
  | cons it its =>
    have := four_le_headerSize it
    rw [presentItems, if_pos (by omega)]

@[simp] theorem presentTotal_zero (its : List Item) : presentTotal its 0 = 0 := by
  cases its with
  | nil => rfl
  | cons it its =>
    have := four_le_headerSize it
    rw [presentTotal, if_pos (by omega)]

theorem take_append_eq_of_le {m e : Bytes} {n k : ℕ} (h : m.take n = e.take n) (hk : k ≤ n) :
    m.take k = e.take k := by
  have := congrArg (List.take k) h
  rwa [List.take_take, List.take_take, Nat.min_eq_left hk] at this

theorem drop_take_eq {m e : Bytes} {n : ℕ} (h : m.take n = e.take n) (k : ℕ) :
    (m.drop k).take (n - k) = (e.drop k).take (n - k) := by
  rw [← List.drop_take, ← List.drop_take, h]

theorem parseBulkItemsLoop_encoded (data : Ptr) (bytes : ℕ) {mem : Bytes} :
    ∀ (its : List Item) (off : ℕ) (n : ℕ) (parsed : ℤ) (acc : List Bulk),
      (mem.drop off).take n = (encodeItems its ++ rest).take n → n ≤ (mem.drop off).length →
      (∀ it ∈ its, min n (itemSize it) < 2 ^ 31) → (∀ it ∈ its, itemSize it < 2 ^ 63) →
      data.off + bytes - off = n →
      parseBulkItemsLoop data bytes its.length ⟨mem, off⟩ (Int.bmod parsed (2 ^ 32)) acc =
        some (Int.bmod (parsed + presentTotal its n) (2 ^ 32),
          acc ++ presentItems mem off its n) := by
  intro its
  induction its with
  | nil => intro off n parsed acc _ _ _ _ _; simp [parseBulkItemsLoop, presentTotal, presentItems]
  | cons it its ih =>
    intro off n parsed acc hm hl hb hs hn
    have hi := hs it (by simp)
    have hbi := hb it (by simp)
    simp only [List.length_cons, parseBulkItemsLoop]
    by_cases hz : n = 0
    · subst hz
      rw [if_neg (by omega)]
      simp
    rw [if_pos (by omega), hn]
    have hm' : (mem.drop off).take n = (encodeItem it ++ (encodeItems its ++ rest)).take n := by
      rw [hm, encodeItems, encodeItems, List.flatMap_cons, List.append_assoc]
    have hp : (Bulk.parse ⟨mem, off⟩ n).presentSize =
        if n < headerSize it then 0 else ((min n (itemSize it) : ℕ) : ℤ) :=
      parseSize_item hm' hl hbi (by omega)
    by_cases hh : n < headerSize it
    · rw [if_pos hh] at hp
      simp [hp, presentTotal, presentItems, hh]
    · rw [if_neg hh] at hp
      have h4 := four_le_headerSize it
      have hle := headerSize_le it
      have ht : (Bulk.parse ⟨mem, off⟩ n).totalSize = some (itemSize it) :=
        totalOf_item hm' (by omega) (by omega)
      rw [if_neg (by rw [hp]; omega), if_neg (by rw [hp]; omega), ht]
      have hadd : Ptr.add ⟨mem, off⟩ (itemSize it) = some ⟨mem, off + itemSize it⟩ := by
        rw [Ptr.add, if_pos hi]
      have hbm : Int.bmod (Int.bmod parsed (2 ^ 32) + (itemSize it : ℤ)) (2 ^ 32) =
          Int.bmod (parsed + itemSize it) (2 ^ 32) := by
        rw [Int.bmod_add_bmod]
      have hrest := ih (off + itemSize it) (n - itemSize it) (parsed + itemSize it)
        (acc ++ [Bulk.parse ⟨mem, off⟩ n]) ?_ ?_
        (fun i h => by have := hb i (by simp [h]); omega) (fun i h => hs i (by simp [h])) (by omega)
      · simp only [Option.bind_eq_bind, Option.bind_some, hadd, hbm, hrest, presentTotal,
          presentItems, if_neg hh, List.append_assoc, List.singleton_append]
        congr 2
        · push_cast
          rw [Int.add_assoc]
        · rw [← hp]
          rfl
      · have := drop_take_eq hm' (itemSize it)
        rw [List.drop_drop, itemSize, List.drop_left] at this
        exact this
      · simp only [List.length_drop] at hl ⊢
        omega

theorem parseBulkItems_encoded {data : Ptr}
    (hm : data.rest.take n = (encodeItems its ++ rest).take n)
    (hl : n ≤ data.rest.length) (hb : ∀ it ∈ its, min n (itemSize it) < 2 ^ 31)
    (hs : ∀ it ∈ its, itemSize it < 2 ^ 63) :
    parseBulkItems data n its.length =
      some (Int.bmod (presentTotal its n) (2 ^ 32), presentItems data.mem data.off its n) := by
  have := parseBulkItemsLoop_encoded data n its data.off n 0 [] hm hl hb hs
    (by omega)
  simpa [parseBulkItems] using this

theorem absentSize_item {p : Ptr} {n : ℕ} {it : Item} (hn : n < 2 ^ 31)
    (hs : itemSize it < 2 ^ 63) (ht : Bulk.totalOf p.rest = some (itemSize it)) :
    (Bulk.mk p (n : ℤ)).absentSize = some (itemSize it - n) := by
  simp only [Bulk.absentSize, Bulk.totalSize, ht, Option.map_some, Option.some.injEq]
  rw [intToSize_natCast (by omega)]
  split
  next h => omega
  next h => exact subSize_eq (by omega) (by omega)

/-- A bulk whose header has arrived is complete when its last byte has. -/
theorem completed_item {p : Ptr} (hn : n < 2 ^ 31) (hs : itemSize it < 2 ^ 63) (h0 : 0 < n)
    (ht : Bulk.totalOf p.rest = some (itemSize it)) :
    (Bulk.mk p (min n (itemSize it) : ℕ)).completed = some (decide (itemSize it ≤ n)) := by
  have h4 := four_le_headerSize it
  have hle := headerSize_le it
  rw [Bulk.completed, if_pos (by simp only; omega), absentSize_item (by omega) hs ht]
  simp only [Option.map_some, Option.some.injEq]
  by_cases h : itemSize it ≤ n
  · rw [Nat.min_eq_right h, Nat.sub_self]
    simp [h]
  · rw [Nat.min_eq_left (by omega), decide_eq_false h, beq_eq_false_iff_ne]
    omega

end Items
end Yarmproxy

import Yarmproxy.RedisEncoding

/-! # Arrays on a prefix of their encoding

What `BulkArray` makes of the first `n` bytes of an encoded array, and of the bulks that
have arrived completely. -/
namespace Yarmproxy

theorem length_serializePrefix (n : ℕ) : (serializePrefix n).length = (dec n).length + 3 := by
  simp [serializePrefix, ascii, crlf]

theorem four_le_serializePrefix (n : ℕ) : 4 ≤ (serializePrefix n).length := by
  have := List.length_pos_iff.mpr (dec_ne_nil n)
  rw [length_serializePrefix]
  omega

theorem serializePrefix_eq (n : ℕ) (rest : Bytes) :
    serializePrefix n ++ rest = ch '*' :: (dec n ++ ch '\r' :: ch '\n' :: rest) := by
  have hc : crlf = [ch '\r', ch '\n'] := rfl
  have ha : ascii "*" = [ch '*'] := rfl
  simp [serializePrefix, ha, hc]

namespace BulkArray

theorem scanCount_digits {ds : Bytes} (hd : ∀ c ∈ ds, isDigit c = true) (rest : Bytes)
    (hr : ∀ c ∈ rest.head?, isDigit c = false) (k b : ℕ) :
    scanCount (ds ++ rest) k b = (k + ds.length, ds.foldl accDigit b) := by
  induction ds generalizing k b with
  | nil =>
    cases rest with
    | nil => rfl
    | cons c rest =>
      have hc := hr c (by simp)
      simp [scanCount, hc]
  | cons c ds ih =>
    have hc := hd c (by simp)
    rw [List.cons_append, scanCount, if_pos hc, ih (fun d h => hd d (by simp [h])),
      List.foldl_cons, List.length_cons]
    congr 1
    omega

section Encoded
variable {rest : Bytes} {n : ℕ} {its : List Item} {data : Ptr}

/-- A header that has not arrived completely is not parsed. -/
theorem parse_short (hm : data.rest.take n = (encodeArray its ++ rest).take n)
    (hn : n < (serializePrefix its.length).length) :
    parse data n = some ⟨data, 0, []⟩ := by
  unfold parse
  by_cases h4 : n < 4
  · simp only [if_pos h4]
  have hlen := length_serializePrefix its.length
  have h0 : data.rest.getD 0 0 = ch '*' := by
    rw [getD_of_take hm (by omega)]
    rfl
  have hdrop : (data.rest.take n).drop 1 =
      (dec its.length ++ ch '\r' :: ch '\n' :: (encodeItems its ++ rest)).take (n - 1) := by
    rw [hm, encodeArray, List.append_assoc, serializePrefix_eq, List.drop_take]
    rfl
  -- the scan stops at the end of the bytes or one short of it
  have hk : n < (scanCount ((data.rest.take n).drop 1) 1 0).1 + 2 := by
    rw [hdrop]
    by_cases hr : n - 1 ≤ (dec its.length).length
    · rw [List.take_append_of_le_length hr]
      have hscan := scanCount_digits
        (fun c (hc : c ∈ (dec its.length).take (n - 1)) => dec_isDigit c (List.mem_of_mem_take hc))
        [] (by simp) 1 0
      rw [List.append_nil] at hscan
      rw [hscan, List.length_take]
      simp only
      omega
    · have hnn : n - 1 = (dec its.length).length + 1 := by omega
      rw [hnn, List.take_length_add_append, List.take_succ_cons, List.take_zero,
        scanCount_digits dec_isDigit _ (by simp; decide)]
      simp only
      omega
  simp only [if_neg h4, h0, ne_eq, not_true_eq_false, if_false]
  rw [if_pos hk]

/-- The array behind a header of `header` bytes, from what `ParseBulkItems` returns. -/
def ofItems (data : Ptr) (header : ℕ) (r : ℤ × List Bulk) : BulkArray :=
  if r.1 < 0 then ⟨data, intToSize sizeParseError, r.2⟩
  else ⟨data, addSize header (intToSize r.1), r.2⟩

theorem ofItems_bind (header : ℕ) (r : ℤ × List Bulk) :
    (do
      let (ret, items) ← some r
      if ret < 0 then some ⟨data, intToSize sizeParseError, items⟩
      else some ⟨data, addSize header (intToSize ret), items⟩) = some (ofItems data header r) := by
  obtain ⟨ret, items⟩ := r
  exact (apply_ite some _ _ _).symm

/-- The array of a complete header: the bulks whose headers have arrived, and the `int` sum of
their sizes, which may overflow. -/
def parsedArray (data : Ptr) (its : List Item) (n : ℕ) : BulkArray :=
  let header := (serializePrefix its.length).length
  ofItems data header (Int.bmod (presentTotal its (n - header)) (2 ^ 32),
    presentItems data.mem (data.off + header) its (n - header))

theorem drop_one_of_arrayHeader (hm : data.rest.take n = (encodeArray its ++ rest).take n)
    (hn : (serializePrefix its.length).length ≤ n) :
    data.rest.drop 1 = dec its.length ++ ch '\r' :: ch '\n' ::
      data.rest.drop (serializePrefix its.length).length := by
  have htake : data.rest.take (serializePrefix its.length).length = serializePrefix its.length := by
    rw [take_append_eq_of_le hm hn, encodeArray, List.append_assoc, List.take_left]
  conv_lhs => rw [← List.take_append_drop (serializePrefix its.length).length data.rest, htake,
    serializePrefix_eq]
  rfl

theorem parse_encoded (hm : data.rest.take n = (encodeArray its ++ rest).take n)
    (hl : n ≤ data.rest.length) (hb : ∀ it ∈ its, min n (itemSize it) < 2 ^ 31)
    (hs : ∀ it ∈ its, itemSize it < 2 ^ 63) (hc : its.length < 2 ^ 64)
    (hn : (serializePrefix its.length).length ≤ n) :
    parse data n = some (parsedArray data its n) := by
  have hlen := length_serializePrefix its.length
  have h4 := four_le_serializePrefix its.length
  have h0 : data.rest.getD 0 0 = ch '*' := by
    rw [getD_of_take hm (by omega)]
    rfl
  have hdrop : (data.rest.take n).drop 1 = dec its.length ++ ch '\r' :: ch '\n' ::
      (encodeItems its ++ rest).take (n - (serializePrefix its.length).length) := by
    rw [hm, encodeArray, List.append_assoc, List.take_append, List.take_of_length_le hn,
      serializePrefix_eq]
    rfl
  have hscan : scanCount ((data.rest.take n).drop 1) 1 0 =
      ((dec its.length).length + 1, its.length) := by
    rw [hdrop, scanCount_digits dec_isDigit _ (by simp; decide), foldl_accDigit_dec hc,
      Nat.add_comm]
  have hget : ∀ i, data.rest.getD (i + 1) 0 = (dec its.length ++ ch '\r' :: ch '\n' ::
      data.rest.drop (serializePrefix its.length).length).getD i 0 := by
    intro i
    rw [← drop_one_of_arrayHeader hm hn]
    simp [List.getD_eq_getElem?_getD]
  have hcr : data.rest.getD ((dec its.length).length + 1) 0 = ch '\r' := by
    rw [hget]
    simp [List.getD_eq_getElem?_getD]
  have hlf : data.rest.getD ((dec its.length).length + 1 + 1) 0 = ch '\n' := by
    rw [hget]
    simp [List.getD_eq_getElem?_getD]
  have hk : (dec its.length).length + 1 + 2 = (serializePrefix its.length).length := by omega
  have hrest : Ptr.rest ⟨data.mem, data.off + (serializePrefix its.length).length⟩ =
      data.rest.drop (serializePrefix its.length).length := by
    simp [Ptr.rest, List.drop_drop]
  have hm' : (Ptr.rest ⟨data.mem, data.off + (serializePrefix its.length).length⟩).take
      (n - (serializePrefix its.length).length) =
      (encodeItems its ++ rest).take (n - (serializePrefix its.length).length) := by
    have := drop_take_eq hm (serializePrefix its.length).length
    rwa [encodeArray, List.append_assoc, List.drop_left, ← hrest] at this
  have hl' : n - (serializePrefix its.length).length ≤
      (Ptr.rest ⟨data.mem, data.off + (serializePrefix its.length).length⟩).length := by
    rw [hrest, List.length_drop]
    omega
  have hitems := parseBulkItems_encoded hm' hl'
    (fun it hit => by have := hb it hit; omega) hs
  have hoff : data.off + ((dec its.length).length + 1) + 2 =
      data.off + (serializePrefix its.length).length := by omega
  have hval : ¬ ((dec its.length).length + 1 = 1 ∨
      data.rest.getD ((dec its.length).length + 1) 0 ≠ ch '\r' ∨
      data.rest.getD ((dec its.length).length + 1 + 1) 0 ≠ ch '\n') := by
    rw [hcr, hlf]
    simp only [ne_eq, not_true_eq_false, or_false]
    omega
  unfold parse
  simp only [h0, ne_eq, not_true_eq_false, if_false, hscan]
  rw [if_neg (by omega), if_neg (by omega), if_neg hval, hoff, hk, hitems]
  exact ofItems_bind _ _

@[simp] theorem items_parsedArray : (parsedArray data its n).items =
    presentItems data.mem (data.off + (serializePrefix its.length).length) its
      (n - (serializePrefix its.length).length) := by
  rw [parsedArray, ofItems]
  split
  · rfl
  · rfl

@[simp] theorem rawData_parsedArray : (parsedArray data its n).rawData = data := by
  rw [parsedArray, ofItems]
  split
  · rfl
  · rfl

theorem bmod_ne_zero {k m : ℕ} (h0 : 0 < k) (h : k < m) : Int.bmod k m ≠ 0 := by
  intro hz
  have hd : (m : ℤ) ∣ k := Int.dvd_of_bmod_eq_zero hz
  have := Nat.le_of_dvd h0 (Int.natCast_dvd_natCast.mp hd)
  omega

/-- Once its header has arrived an array does not look empty, even if the sum overflows. -/
theorem parsedSize_parsedArray (hc : its.length < 2 ^ 31) :
    (parsedArray data its n).parsedSize ≠ 0 := by
  have hd := length_dec_le (n := its.length) (k := 10) (by decide) (by omega)
  have hlen := length_serializePrefix its.length
  rw [parsedArray, ofItems]
  generalize hr : Int.bmod (presentTotal its (n - (serializePrefix its.length).length)) (2 ^ 32) =
    ret
  have hret : ret < 2 ^ 31 := hr ▸ Int.bmod_lt (by decide)
  split
  next => exact (by decide : sizeToInt (intToSize sizeParseError) ≠ 0)
  next hn =>
    obtain ⟨m, rfl⟩ := Int.eq_ofNat_of_zero_le (Int.not_lt.mp hn)
    simp only [parsedSize]
    rw [intToSize_natCast (by omega), addSize_eq (by omega)]
    exact bmod_ne_zero (by omega) (by omega)

theorem totalBulks_encoded {ba : BulkArray} (hba : ba.rawData = data)
    (hm : data.rest.take n = (encodeArray its ++ rest).take n)
    (hn : (serializePrefix its.length).length ≤ n) (hc : its.length < 2 ^ 31) :
    ba.totalBulks = its.length := by
  rw [totalBulks, hba, drop_one_of_arrayHeader hm hn, stoi_dec hc (by simp; decide)]
  exact intToSize_natCast (by omega)

end Encoded
end BulkArray

/-- The bulks of encoded items that start at `off`. -/
def wholeItems (mem : Bytes) : ℕ → List Item → List Bulk
  | _, [] => []
  | off, it :: its => ⟨⟨mem, off⟩, itemSize it⟩ :: wholeItems mem (off + itemSize it) its

theorem length_encodeItems_cons (it : Item) (its : List Item) :
    (encodeItems (it :: its)).length = itemSize it + (encodeItems its).length := by
  simp [encodeItems, itemSize]

theorem presentItems_whole {mem : Bytes} (its : List Item) : ∀ (off n : ℕ),
    (encodeItems its).length ≤ n → presentItems mem off its n = wholeItems mem off its := by
  induction its with
  | nil => exact fun _ _ _ => rfl
  | cons it its ih =>
    intro off n hn
    rw [length_encodeItems_cons] at hn
    have := headerSize_le it
    rw [presentItems, if_neg (by omega), wholeItems, ih _ _ (by omega), Nat.min_eq_right (by omega)]

theorem presentTotal_whole (its : List Item) : ∀ n : ℕ,
    (encodeItems its).length ≤ n → presentTotal its n = (encodeItems its).length := by
  induction its with
  | nil => exact fun _ _ => rfl
  | cons it its ih =>
    intro n hn
    rw [length_encodeItems_cons] at hn ⊢
    have := headerSize_le it
    rw [presentTotal, if_neg (by omega), ih _ (by omega)]

@[simp] theorem length_wholeItems {mem : Bytes} (its : List Item) :
    ∀ off, (wholeItems mem off its).length = its.length := by
  induction its with
  | nil => exact fun _ => rfl
  | cons it its ih => exact fun off => by simp [wholeItems, ih]

namespace Bulk
variable {v rest : Bytes} {n : ℕ} {p : Ptr} {present : ℤ}

theorem payloadOffset_header (hm : p.rest.take n = (encodeItem (some v) ++ rest).take n)
    (hn : headerSize (some v) ≤ n) :
    payloadOffset ⟨p, present⟩ = some (headerSize (some v)) := by
  obtain ⟨tail, ht⟩ := drop_one_of_header hm hn
  obtain ⟨c, cs, hc⟩ := List.exists_cons_of_ne_nil (dec_ne_nil v.length)
  have hdrop : p.rest.drop 2 = cs ++ ch '\r' :: ch '\n' :: tail := by
    have := congrArg (List.drop 1) ht
    rw [List.drop_drop, hc] at this
    exact this
  have hlf : ∀ d ∈ cs ++ [ch '\r'], (d == ch '\n') = false := by
    intro d hd
    rcases List.mem_append.mp hd with hd | hd
    · have := dec_isDigit d (n := v.length) (by simp [hc, hd])
      simpa using isDigit_ne this (by decide)
    · obtain rfl := List.mem_singleton.mp hd
      decide
  have hidx : (cs ++ ch '\r' :: ch '\n' :: tail).findIdx? (· == ch '\n') =
      some (cs.length + 1) := by
    have hsplit : cs ++ ch '\r' :: ch '\n' :: tail = (cs ++ [ch '\r']) ++ ch '\n' :: tail := by simp
    rw [hsplit, Lists.findIdx?_stops hlf (by simp)]
    simp
  rw [payloadOffset, hdrop, hidx, headerSize, hc]
  simp

theorem payloadSize_header (hm : p.rest.take n = (encodeItem (some v) ++ rest).take n)
    (hn : headerSize (some v) ≤ n) (hv : v.length < 2 ^ 31) :
    payloadSize ⟨p, present⟩ = v.length := by
  obtain ⟨tail, ht⟩ := drop_one_of_header hm hn
  rw [payloadSize, ht, stoi_dec hv (by simp; decide)]
  by_cases hz : v.length = 0
  · simp [hz]
  · simp only [gt_iff_lt]
    rw [if_pos (by omega)]
    simp

theorem payload_whole (hm : p.rest.take n = (encodeItem (some v) ++ rest).take n)
    (hl : n ≤ p.rest.length) (hn : itemSize (some v) ≤ n) (hv : v.length < 2 ^ 31) :
    payload ⟨p, present⟩ = some v := by
  have hsize := itemSize_some v
  rw [payload, payloadOffset_header hm (by omega), payloadSize_header hm (by omega) hv]
  simp only [Option.bind_eq_bind, Option.bind_some]
  rw [if_pos (by omega)]
  congr 1
  have := drop_take_eq hm (headerSize (some v))
  have htake := congrArg (List.take v.length) this
  rw [List.take_take, List.take_take, Nat.min_eq_left (by omega)] at htake
  rw [htake]
  have hsplit : encodeItem (some v) ++ rest =
      (ch '$' :: (dec v.length ++ [ch '\r', ch '\n'])) ++ (v ++ (crlf ++ rest)) := by
    simp [encodeItem]
  rw [hsplit, List.drop_left' (by simp [headerSize]), List.take_left]

end Bulk
end Yarmproxy
